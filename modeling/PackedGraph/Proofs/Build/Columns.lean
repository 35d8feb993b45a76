import PackedGraph.Build.Compress
import PackedGraph.Proofs.Build.Calls

/-!
# Columns of a built graph

The records of a builder fit in columns with one element for each node.
-/

namespace PackedGraph

namespace Column

theorem type_blank (type : ValueType) (size : Nat) : (blank type size).type = type := by
  cases type <;> rfl

theorem size_blank (type : ValueType) (size : Nat) : (blank type size).size = size := by
  cases type <;> exact Array.size_replicate

/-- A node of a column can be given any value of the type of the column. -/
theorem set_of_type {column : Column} {node : Nat} {value : PropertyValue}
    (htype : value.type = column.type) (hnode : node < column.size) :
    ∃ next, column.set node value = .ok (some next) ∧ next.type = column.type ∧
      next.size = column.size := by
  cases column <;> cases value <;> simp only [PropertyValue.type, type, reduceCtorEq] at htype
  all_goals
    rw [size] at hnode
    rw [set, replace, if_pos hnode]
    exact ⟨_, rfl, rfl, Array.size_setIfInBounds⟩

end Column

namespace GraphBuilder

/-- Gives a node of a column the value of an entry. -/
def setEntry (key : String) (column : Column) (entry : Nat × PropertyValue) :
    Except Fault Column := do
  match ← column.set entry.1 entry.2 with
  | some column => return column
  | none => throw (.columnType key)

theorem setEntries_eq {column : Column} {entries : List (Nat × PropertyValue)}
    (h : ∀ entry ∈ entries, entry.1 < column.size ∧ entry.2.type = column.type) (key : String) :
    ∃ built, entries.foldlM (setEntry key) column = .ok built ∧ built.size = column.size ∧
      built.type = column.type := by
  induction entries generalizing column with
  | nil => exact ⟨column, rfl, rfl, rfl⟩
  | cons entry entries ih =>
    obtain ⟨hnode, htype⟩ := h entry List.mem_cons_self
    obtain ⟨next, hset, hnextType, hnextSize⟩ := Column.set_of_type htype hnode
    have hentries : ∀ other ∈ entries, other.1 < next.size ∧ other.2.type = next.type := by
      rw [hnextType, hnextSize]
      exact fun other hother ↦ h other (List.mem_cons_of_mem _ hother)
    obtain ⟨built, hbuilt, hsize, hsame⟩ := ih hentries
    refine ⟨built, ?_, hsize.trans hnextSize, hsame.trans hnextType⟩
    rw [List.foldlM_cons, setEntry, hset]
    exact hbuilt

theorem buildColumn_eq {size : Nat} {record : PropertyRecord}
    (h : ∀ entry ∈ record.values, entry.1 < size ∧ entry.2.type = record.type) (key : String) :
    ∃ column, buildColumn size key record = .ok column ∧ column.size = size ∧
      column.type = record.type := by
  have hblank : ∀ entry ∈ record.values.toList,
      entry.1 < (Column.blank record.type size).size ∧
        entry.2.type = (Column.blank record.type size).type := by
    rw [Column.size_blank, Column.type_blank]
    exact fun entry hentry ↦ h entry (Array.mem_toList_iff.mp hentry)
  obtain ⟨built, hbuilt, hsize, htype⟩ := setEntries_eq hblank key
  rw [Array.foldlM_toList] at hbuilt
  exact ⟨built, hbuilt, hsize.trans (Column.size_blank _ _), htype.trans (Column.type_blank _ _)⟩

/-- All columns have as many elements as there are nodes. -/
theorem buildColumns_eq {builder : GraphBuilder} (h : builder.Valid) :
    ∃ columns, builder.buildColumns builder.nodeCount = .ok columns ∧
      ∀ entry ∈ columns.toList, entry.2.size = builder.nodeCount := by
  have hrecords : ∀ entry ∈ builder.properties.toList, ∀ value ∈ entry.2.values,
      value.1 < builder.nodeCount ∧ value.2.type = entry.2.type := fun entry hentry ↦
    h.records entry.1 entry.2 (Std.TreeMap.mem_toList_iff_getElem?_eq_some.mp hentry)
  rw [buildColumns]
  generalize builder.properties.toList = records at hrecords
  have hempty : ∀ entry ∈ (∅ : Std.TreeMap String Column).toList,
      entry.2.size = builder.nodeCount := by simp
  generalize (∅ : Std.TreeMap String Column) = columns at hempty
  induction records generalizing columns with
  | nil => exact ⟨columns, rfl, hempty⟩
  | cons record records ih =>
    obtain ⟨column, hcolumn, hsize, _⟩ := buildColumn_eq (hrecords record List.mem_cons_self) record.1
    have hinsert : ∀ entry ∈ (columns.insert record.1 column).toList,
        entry.2.size = builder.nodeCount := by
      intro entry hentry
      rw [Std.TreeMap.mem_toList_iff_getElem?_eq_some, Std.TreeMap.getElem?_insert] at hentry
      split_ifs at hentry
      · rw [← Option.some_inj.mp hentry, hsize]
      · exact hempty entry (Std.TreeMap.mem_toList_iff_getElem?_eq_some.mpr hentry)
    obtain ⟨built, hbuilt, hall⟩ :=
      ih (fun entry hentry ↦ hrecords entry (List.mem_cons_of_mem _ hentry)) _ hinsert
    refine ⟨built, ?_, hall⟩
    simp only [List.foldlM_cons, hcolumn]
    exact hbuilt

end GraphBuilder

end PackedGraph
