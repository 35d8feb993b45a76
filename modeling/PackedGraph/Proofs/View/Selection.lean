import PackedGraph.Proofs.Build.Compression
import PackedGraph.Proofs.View.Contract
import PackedGraph.View.Filtering

/-!
# The parts of a filter

What a filter computes from a view that keeps its contract: which nodes pass, where each of them is
found among those that pass, how many of its targets pass, and its values in the selected columns.
-/

namespace PackedGraph

variable {α ε : Type}

theorem anyM_eq_ok {f : α → Except ε Bool} {g : α → Bool} {l : List α}
    (h : ∀ a ∈ l, f a = .ok (g a)) : l.anyM f = .ok (l.any g) := by
  induction l with
  | nil => rfl
  | cons a l ih =>
    obtain ⟨ha, hl⟩ := List.forall_mem_cons.mp h
    rw [List.anyM_cons, ha, List.any_cons]
    cases hg : g a with
    | true => rfl
    | false => exact ih hl

theorem filterM_eq_ok {f : α → Except ε Bool} {g : α → Bool} {l : List α}
    (h : ∀ a ∈ l, f a = .ok (g a)) : l.filterM f = .ok (l.filter g) := by
  have haux (seen : List α) : l.filterAuxM f seen = .ok ((l.filter g).reverse ++ seen) := by
    induction l generalizing seen with
    | nil => rfl
    | cons a l ih =>
      obtain ⟨ha, hl⟩ := List.forall_mem_cons.mp h
      rw [List.filterAuxM, ha]
      refine (ih hl _).trans ?_
      cases hg : g a with
      | true => rw [List.filter_cons_of_pos hg, List.reverse_cons, List.append_assoc]; rfl
      | false => rw [List.filter_cons_of_neg (Bool.not_eq_true _ ▸ hg)]; rfl
  rw [List.filterM, haux, List.append_nil]
  exact congrArg Except.ok (List.reverse_reverse _)

theorem Filter.root_eq_ok_iff {filter : Filter} {node root : Nat} :
    filter.root node = .ok root ↔ filter.toRoot[node]? = some root := by
  rw [Filter.root]
  cases filter.toRoot[node]? <;> simp

theorem Filter.filtered_eq_ok_iff {filter : Filter} {root : Nat} {kept : Option Nat} :
    filter.filtered root = .ok kept ↔ filter.toFiltered[root]? = some kept := by
  rw [Filter.filtered]
  cases filter.toFiltered[root]? <;> simp

/-! ## Positions -/

/-- Entering the positions of different nodes into a table. -/
theorem getElem?_foldl_setIfInBounds {nodes : List Nat} (hnodup : nodes.Nodup) (start : Nat)
    (table : Array (Option Nat)) :
    let entered := (nodes.zipIdx start).foldl
      (fun table entry ↦ table.setIfInBounds entry.1 (some entry.2)) table
    entered.size = table.size ∧
      (∀ (i node : Nat), nodes[i]? = some node → node < table.size →
        entered[node]? = some (some (start + i))) ∧
      ∀ node ∉ nodes, entered[node]? = table[node]? := by
  intro entered
  induction nodes generalizing start table with
  | nil => exact ⟨rfl, nofun, fun _ _ ↦ rfl⟩
  | cons first nodes ih =>
    obtain ⟨hfirst, hnodes⟩ := List.nodup_cons.mp hnodup
    obtain ⟨hsize, hsome, hnone⟩ := ih hnodes (start + 1) (table.setIfInBounds first (some start))
    rw [Array.size_setIfInBounds] at hsize hsome
    refine ⟨hsize, fun i node hi hlt ↦ ?_, fun node hnode ↦ ?_⟩
    · cases i with
      | zero =>
        obtain rfl := Option.some.inj hi
        refine (hnone first hfirst).trans ?_
        rw [Array.getElem?_setIfInBounds_self_of_lt hlt, Nat.add_zero]
      | succ i =>
        refine (hsome i node hi hlt).trans ?_
        rw [Nat.add_right_comm, Nat.add_assoc]
    · rw [List.mem_cons, not_or] at hnode
      refine (hnone node hnode.2).trans ?_
      rw [Array.getElem?_setIfInBounds_ne (Ne.symm hnode.1)]

theorem size_positions {nodes : List Nat} (hnodup : nodes.Nodup) (size : Nat) :
    (positions nodes size).size = size :=
  (getElem?_foldl_setIfInBounds hnodup 0 _).1.trans Array.size_replicate

/-- A node is found at its position, and others are not found. -/
theorem getElem?_positions {nodes : List Nat} (hnodup : nodes.Nodup) {size node : Nat}
    (hnode : node < size) :
    ∃ kept, (positions nodes size)[node]? = some kept ∧
      ∀ i, kept = some i ↔ nodes[i]? = some node := by
  obtain ⟨_, hsome, hnone⟩ := getElem?_foldl_setIfInBounds hnodup 0 (.replicate size none)
  by_cases hmem : node ∈ nodes
  · obtain ⟨i, hi⟩ := List.mem_iff_getElem?.mp hmem
    have hentered := hsome i node hi (Array.size_replicate.symm ▸ hnode)
    rw [Nat.zero_add] at hentered
    refine ⟨some i, hentered, fun j ↦ ?_⟩
    rw [Option.some.injEq]
    constructor
    · rintro rfl
      exact hi
    · intro hj
      have hlt := (List.getElem?_eq_some_iff.mp hi).1
      exact (List.getElem?_inj hlt hnodup).mp (hi.trans hj.symm)
  · refine ⟨none, ?_, fun i ↦ ?_⟩
    · refine (hnone node hmem).trans ?_
      rw [Array.getElem?_replicate, if_pos hnode]
    · constructor
      · exact nofun
      · exact fun hi ↦ absurd (List.mem_of_getElem? hi) hmem

/-! ## Columns -/

/-- Two columns give two nodes the same value, in whatever form it is asked for. -/
structure Column.AgreesAt (column other : Column) (node otherNode : Nat) : Prop where
  type_eq : column.type = other.type
  longValue_eq : column.longValue node = other.longValue otherNode
  doubleValue_eq : column.doubleValue node = other.doubleValue otherNode
  arrayValue_eq : column.arrayValue node = other.arrayValue otherNode
  hasValue_eq : column.hasValue node = other.hasValue otherNode

theorem Column.mapM_element {values : Array α} {nodes : Array Nat}
    (h : ∀ node ∈ nodes, node < values.size) :
    ∃ selected, nodes.mapM (element values) = .ok selected ∧ selected.size = nodes.size ∧
      ∀ (i node : Nat), nodes[i]? = some node → element selected i = element values node := by
  have hnodes : ∀ node ∈ nodes.toList, ∃ value, element values node = .ok value ∧
      values[node]? = some value := by
    intro node hnode
    have hvalue := Array.getElem?_eq_getElem (h node (Array.mem_toList_iff.mp hnode))
    exact ⟨_, by rw [element, hvalue], hvalue⟩
  obtain ⟨selected, hselected, hall⟩ := exists_mapM_eq_ok hnodes
  refine ⟨selected.toArray, ?_, hall.length_eq.symm, fun i node hi ↦ ?_⟩
  · rw [Array.mapM_eq_mapM_toList, hselected]
    rfl
  · rw [← Array.getElem?_toList] at hi
    obtain ⟨hlt, hget⟩ := List.getElem?_eq_some_iff.mp hi
    have hvalue := hall.get hlt (hall.length_eq ▸ hlt)
    rw [List.get_eq_getElem, hget] at hvalue
    rw [element, element, hvalue, List.getElem?_toArray, List.getElem?_eq_getElem]
    rfl

/-- Selecting nodes of a column succeeds, and every node keeps its value under its new number. -/
theorem Column.select_eq {column : Column} {nodes : Array Nat}
    (h : ∀ node ∈ nodes, node < column.size) :
    ∃ selected, column.select nodes = .ok selected ∧ selected.size = nodes.size ∧
      ∀ (i node : Nat), nodes[i]? = some node → selected.AgreesAt column i node := by
  cases column with
  | long values =>
    obtain ⟨selected, hselected, hsize, helement⟩ := mapM_element h
    refine ⟨.long selected, by rw [select, hselected]; rfl, hsize, fun i node hi ↦ ?_⟩
    have hvalue := helement i node hi
    refine ⟨rfl, ?_, ?_, rfl, ?_⟩
    · rw [longValue, longValue, hvalue]
    · rw [doubleValue, doubleValue, longValue, longValue, hvalue]
    · rw [hasValue, hasValue, hvalue]
  | double values =>
    obtain ⟨selected, hselected, hsize, helement⟩ := mapM_element h
    refine ⟨.double selected, by rw [select, hselected]; rfl, hsize, fun i node hi ↦ ?_⟩
    have hvalue := helement i node hi
    refine ⟨rfl, rfl, ?_, ?_, ?_⟩
    · rw [doubleValue, doubleValue, hvalue]
    · rw [arrayValue, arrayValue, hvalue]
    · rw [hasValue, hasValue, hvalue]
  | doubleArray values =>
    obtain ⟨selected, hselected, hsize, helement⟩ := mapM_element h
    refine ⟨.doubleArray selected, by rw [select, hselected]; rfl, hsize, fun i node hi ↦ ?_⟩
    have hvalue := helement i node hi
    refine ⟨rfl, rfl, rfl, ?_, ?_⟩
    · rw [arrayValue, arrayValue, hvalue]
    · rw [hasValue, hasValue, hvalue]

/-- A column has been selected for some nodes. -/
def Column.Selects (nodes : Array Nat) (column selected : Column) : Prop :=
  selected.size = nodes.size ∧
    ∀ (i node : Nat), nodes[i]? = some node → selected.AgreesAt column i node

/-- Entering the selected columns of different keys into a map. -/
theorem foldlM_select {nodes : Array Nat} {entries : List (String × Column)}
    (hkeys : (entries.map Prod.fst).Nodup)
    (hsize : ∀ entry ∈ entries, ∀ node ∈ nodes, node < entry.2.size)
    (columns : Std.TreeMap String Column) :
    ∃ built : Std.TreeMap String Column,
      entries.foldlM (fun (columns : Std.TreeMap String Column) (entry : String × Column) ↦ do
        let selected ← entry.2.select nodes
        return columns.insert entry.1 selected) columns = .ok built ∧
      (∀ entry ∈ entries, ∃ selected, built[entry.1]? = some selected ∧
        entry.2.Selects nodes selected) ∧
      ∀ key ∉ entries.map Prod.fst, built[key]? = columns[key]? := by
  induction entries generalizing columns with
  | nil => exact ⟨columns, rfl, nofun, fun _ _ ↦ rfl⟩
  | cons entry entries ih =>
    rw [List.map_cons, List.nodup_cons] at hkeys
    obtain ⟨hentry, hentries⟩ := List.forall_mem_cons.mp hsize
    obtain ⟨selected, hselected, hselects⟩ := Column.select_eq hentry
    obtain ⟨built, hbuilt, hsome, hnone⟩ :=
      ih hkeys.2 hentries (columns.insert entry.1 selected)
    refine ⟨built, ?_, ?_, fun key hkey ↦ ?_⟩
    · rw [List.foldlM_cons, hselected]
      exact hbuilt
    · rw [List.forall_mem_cons]
      refine ⟨⟨selected, ?_, hselects⟩, hsome⟩
      rw [hnone entry.1 hkeys.1, Std.TreeMap.getElem?_insert_self]
    · rw [List.map_cons, List.mem_cons, not_or] at hkey
      rw [hnone key hkey.2, Std.TreeMap.getElem?_insert, if_neg]
      simpa using Ne.symm hkey.1

namespace View

/-- Selecting nodes in all columns of a view keeps the keys. -/
theorem Contract.selectColumns_eq {view : View} (h : view.Contract) (nodes : Array Nat)
    (hnodes : ∀ node ∈ nodes, node < view.nodeCount) :
    ∃ columns, view.selectColumns nodes = .ok columns ∧
      ∀ key : String, Option.Rel (Column.Selects nodes) (view.column? key) columns[key]? := by
  have hkeys : (view.columns.toList.map Prod.fst).Nodup := by
    rw [Std.TreeMap.map_fst_toList_eq_keys]
    exact Std.TreeMap.nodup_keys
  have hsize : ∀ entry ∈ view.columns.toList, ∀ node ∈ nodes, node < entry.2.size := by
    intro entry hentry node hnode
    rw [h.size_columns entry.1 entry.2 (Std.TreeMap.mem_toList_iff_getElem?_eq_some.mp hentry)]
    exact hnodes node hnode
  obtain ⟨columns, hcolumns, hsome, hnone⟩ := foldlM_select hkeys hsize ∅
  refine ⟨columns, hcolumns, fun key ↦ ?_⟩
  cases hcolumn : view.column? key with
  | some column =>
    have hmem := Std.TreeMap.mem_toList_iff_getElem?_eq_some.mpr hcolumn
    obtain ⟨selected, hselected, hselects⟩ := hsome (key, column) hmem
    rw [hselected]
    exact .some hselects
  | none =>
    rw [hnone key, Std.TreeMap.getElem?_emptyc]
    · exact .none
    · intro hmem
      obtain ⟨entry, hentry, rfl⟩ := List.mem_map.mp hmem
      rw [column?, Std.TreeMap.mem_toList_iff_getElem?_eq_some.mp hentry] at hcolumn
      cases hcolumn

/-! ## Nodes and degrees -/

/-- A node carries at least one of some labels. -/
def Carries (view : View) (labels : List String) (node : Nat) : Prop :=
  ∃ label ∈ labels, view.hasLabel node label = .ok true

instance (view : View) (labels : List String) : DecidablePred (view.Carries labels) :=
  fun node ↦ inferInstanceAs (Decidable (∃ label ∈ labels, view.hasLabel node label = .ok true))

/-- The nodes that carry at least one of some labels, in order. -/
def carriers (view : View) (labels : List String) : List Nat :=
  (List.range view.nodeCount).filter (view.Carries labels ·)

theorem mem_carriers_iff {view : View} {labels : List String} {node : Nat} :
    node ∈ view.carriers labels ↔ node < view.nodeCount ∧ view.Carries labels node := by
  rw [carriers, List.mem_filter, List.mem_range, decide_eq_true_eq]

theorem pairwise_carriers (view : View) (labels : List String) :
    (view.carriers labels).Pairwise (· < ·) :=
  List.pairwise_lt_range.filter _

theorem Contract.nodesWithLabels_eq {view : View} (h : view.Contract) (labels : List String) :
    view.nodesWithLabels labels = .ok (view.carriers labels) := by
  apply filterM_eq_ok
  intro node hnode
  have hlabels : ∀ label ∈ labels, view.hasLabel node label =
      .ok (decide (view.hasLabel node label = .ok true)) := by
    intro label _
    obtain ⟨has, hhas⟩ := h.hasLabel node (List.mem_range.mp hnode) label
    rw [hhas]
    cases has <;> rfl
  rw [anyM_eq_ok hlabels]
  congr 1
  rw [Bool.eq_iff_iff, List.any_eq_true, decide_eq_true_eq]
  simp only [decide_eq_true_eq, Carries]

/-- Counting by one at a time. -/
theorem foldl_count_eq {passes : Nat → Option Nat} (targets : List Nat) (degree : Nat) :
    targets.foldl (fun degree target ↦ if (passes target).isSome then degree + 1 else degree)
      degree = degree + (targets.filterMap passes).length := by
  induction targets generalizing degree with
  | nil => rfl
  | cons target targets ih =>
    rw [List.foldl_cons, ih]
    cases htarget : passes target with
    | none => rw [List.filterMap_cons_none htarget]; rfl
    | some kept =>
      rw [List.filterMap_cons_some htarget, List.length_cons, Option.isSome_some, if_pos rfl]
      omega

/-- What a visit that counts the targets that pass does with one of them. -/
def countKept (toFiltered : Array (Option Nat)) (degree target : Nat) : Response Nat :=
  match toFiltered[target]? with
  | some kept => .more (if kept.isSome then degree + 1 else degree)
  | none => .broken .outOfBounds

/-- Counting the targets that pass changes nothing but cursors. -/
theorem keptDegrees_eq {view used : View} (hused : used.fresh = view.fresh)
    (toFiltered : Array (Option Nat)) {nodes : List Nat}
    (hnodes : ∀ node ∈ nodes, view.HandsOut node (view.targets node))
    (htargets : ∀ node ∈ nodes, ∀ target ∈ view.targets node, target < toFiltered.size) :
    ∃ after, used.keptDegrees toFiltered nodes =
        .ok (after, nodes.map fun node ↦
          ((view.targets node).filterMap (toFiltered[·]?.join)).length) ∧
      after.fresh = view.fresh := by
  induction nodes generalizing used with
  | nil => exact ⟨used, rfl, hused⟩
  | cons node nodes ih =>
    obtain ⟨hnode, hnodes⟩ := List.forall_mem_cons.mp hnodes
    obtain ⟨htarget, htargets⟩ := List.forall_mem_cons.mp htargets
    let visit := used.visit node (countKept toFiltered) 0
    obtain ⟨hended, hreader⟩ : visit.ended = _ ∧ _ := hnode used hused Nat _ 0
    rw [Reading.feed_of_more (f := fun degree target ↦
      if (toFiltered[target]?.join).isSome then degree + 1 else degree), foldl_count_eq,
      Nat.zero_add] at hended
    · obtain ⟨hstate, houtcome⟩ := Prod.mk.inj hended
      obtain ⟨after, hafter, hfresh⟩ := ih hreader hnodes htargets
      refine ⟨after, ?_, hfresh⟩
      change (do
        let degree ← visit.result
        let found ← visit.reader.keptDegrees toFiltered nodes
        return (found.1, degree :: found.2)) = _
      rw [Visit.result, houtcome, hstate, hafter]
      rfl
    · intro degree target hmem
      rw [countKept, Array.getElem?_eq_getElem (htarget target hmem)]
      rfl

end View

end PackedGraph
