import PackedGraph.Proofs.View.InducedSubgraph
import PackedGraph.Proofs.View.Released

/-!
# Views with the data of all nodes

A view has an original id and a value in each column for every node. Its filtered views have them
for the nodes that are left, whatever has become of the lists. So every view that can be obtained
has them.
-/

namespace PackedGraph

namespace Column

theorem size_of_mapM_element_eq {α : Type} {values selected : Array α} {nodes : Array Nat}
    (h : nodes.mapM (element values) = .ok selected) : selected.size = nodes.size := by
  rw [Array.mapM_eq_mapM_toList] at h
  obtain ⟨list, hlist, rfl⟩ := exists_of_map_eq_ok h
  exact length_eq_of_mapM_eq_ok hlist

theorem size_of_select_eq {column selected : Column} {nodes : Array Nat}
    (h : column.select nodes = .ok selected) : selected.size = nodes.size := by
  cases column <;>
  · obtain ⟨values, hvalues, rfl⟩ := exists_of_map_eq_ok h
    exact size_of_mapM_element_eq hvalues

end Column

namespace View

/-- Every node of a view has an original id, and a place in each column. -/
structure NodesComplete (view : View) : Prop where
  exists_original : ∀ node < view.nodeCount, ∃ original, view.original node = .ok original
  size_columns : ∀ key column, view.column? key = some column → column.size = view.nodeCount

variable {view other result : View}

theorem Contract.nodesComplete (h : view.Contract) : view.NodesComplete :=
  ⟨fun node ↦ (h.original_iff node).mpr, h.size_columns⟩

theorem original_mapBase {f : PackedView → PackedView} (hf : ∀ base, (f base).ids = base.ids)
    (view : View) (node : Nat) : (view.mapBase f).original node = view.original node := by
  induction view generalizing node with
  | packed view => exact congrArg (IdMap.original · node) (hf view)
  | filtered inner filter ih => simp only [mapBase, original, ih]

theorem columns_mapBase {f : PackedView → PackedView}
    (hf : ∀ base, (f base).columns = base.columns) (view : View) :
    (view.mapBase f).columns = view.columns := by
  cases view with
  | packed view => exact hf view
  | filtered inner filter => rfl

/-- Neither cursors nor releases change the data of the nodes. -/
theorem nodesComplete_mapBase_iff {f : PackedView → PackedView}
    (hids : ∀ base, (f base).ids = base.ids) (hcolumns : ∀ base, (f base).columns = base.columns)
    (view : View) : (view.mapBase f).NodesComplete ↔ view.NodesComplete := by
  have hcount := nodeCount_mapBase hids view
  have hall := columns_mapBase hcolumns view
  constructor
  · rintro ⟨horiginal, hsize⟩
    rw [hcount] at horiginal hsize
    simp only [original_mapBase hids, column?, hall] at horiginal hsize
    exact ⟨horiginal, hsize⟩
  · rintro ⟨horiginal, hsize⟩
    refine ⟨?_, ?_⟩ <;> simp only [hcount, original_mapBase hids, column?, hall]
    · exact horiginal
    · exact hsize

theorem NodesComplete.of_fresh (h : view.NodesComplete) (hfresh : other.fresh = view.fresh) :
    other.NodesComplete := by
  have hfreshIff := nodesComplete_mapBase_iff (f := PackedView.fresh) (fun _ ↦ rfl) fun _ ↦ rfl
  rw [← hfreshIff]
  unfold fresh at hfresh
  rw [hfresh, hfreshIff]
  exact h

theorem nodesComplete_packed {view : PackedView}
    (h : ∀ (key : String) column, view.columns[key]? = some column →
      column.size = view.ids.nodeCount) : (packed view).NodesComplete :=
  ⟨fun node hnode ↦ ⟨view.ids.originals[node], by
    rw [original, IdMap.original, Array.getElem?_eq_getElem hnode]⟩, h⟩

/-- The checks of the constructor complete a view. -/
theorem nodesComplete_of_ofBlocks {ids : IdMap} {columns : Std.TreeMap String Column}
    {relationships : Relationships} {blockTable position : Nat} {view : PackedView}
    (h : PackedView.ofBlocks ids columns relationships blockTable position = .ok view) :
    (packed view).NodesComplete := by
  unfold PackedView.ofBlocks at h
  dsimp only at h
  split_ifs at h
  split at h
  · exact nomatch h
  · rename_i hsizes
    obtain rfl := Except.ok.inj h
    refine nodesComplete_packed fun key column hcolumn ↦ ?_
    have hentry := Std.TreeMap.mem_toList_iff_getElem?_eq_some.mpr hcolumn
    have hsize := List.find?_eq_none.mp hsizes (key, column) hentry
    rw [bne_iff_ne, not_not] at hsize
    exact hsize

/-- Selected columns have a place for each of the selected nodes. -/
theorem size_of_foldlM_select {nodes : Array Nat} {entries : List (String × Column)}
    {start columns : Std.TreeMap String Column}
    (hstart : ∀ (key : String) column, start[key]? = some column → column.size = nodes.size)
    (h : entries.foldlM (fun (columns : Std.TreeMap String Column) (entry : String × Column) ↦ do
      let selected ← entry.2.select nodes
      return columns.insert entry.1 selected) start = .ok columns) (key : String)
    (column : Column) (hcolumn : columns[key]? = some column) : column.size = nodes.size := by
  induction entries generalizing start with
  | nil =>
    obtain rfl := Except.ok.inj h
    exact hstart key column hcolumn
  | cons entry entries ih =>
    rw [List.foldlM_cons] at h
    obtain ⟨next, hnext, hrest⟩ := exists_of_bind_eq_ok h
    obtain ⟨selected, hselected, hinsert⟩ := exists_of_bind_eq_ok hnext
    obtain rfl := Except.ok.inj hinsert
    refine ih (fun other found hfound ↦ ?_) hrest
    rw [Std.TreeMap.getElem?_insert] at hfound
    split_ifs at hfound
    · obtain rfl := Option.some.inj hfound
      exact Column.size_of_select_eq hselected
    · exact hstart other found hfound

/-- A filtered view has the data of the nodes that are left. -/
theorem NodesComplete.of_filter {labels : List String} (h : view.NodesComplete)
    (hresult : view.filter labels = .ok result) : result.NodesComplete := by
  obtain ⟨inner, filter, rfl, hfresh, hfits, hcolumns⟩ := exists_of_filter_eq hresult
  have hinner := h.of_fresh hfresh
  constructor
  · intro node hnode
    obtain ⟨root, hroot⟩ := Filter.exists_root hnode
    rw [original, hroot, ok_bind]
    exact hinner.exists_original root (hfits.root_lt node root hroot)
  · refine size_of_foldlM_select (fun key column hcolumn ↦ ?_) hcolumns
    rw [Std.TreeMap.getElem?_emptyc] at hcolumn
    cases hcolumn

/-- A view that can be obtained: it shows a built graph, or has passed the checks of the
constructor, or it is what has become of such a view. Its cursors may have moved, anything but the
data of its nodes may have been updated, as when blocks are released, and it may have been
filtered. -/
inductive Obtained : View → Prop where
  | built {view : View} : view.OfBuiltGraph → Obtained view
  | checked {ids : IdMap} {columns : Std.TreeMap String Column} {relationships : Relationships}
      {blockTable position : Nat} {view : PackedView} :
      PackedView.ofBlocks ids columns relationships blockTable position = .ok view →
      Obtained (packed view)
  | moved {view other : View} : Obtained view → other.fresh = view.fresh → Obtained other
  | updated {view : View} {f : PackedView → PackedView} : Obtained view →
      (∀ base, (f base).ids = base.ids) → (∀ base, (f base).columns = base.columns) →
      Obtained (view.mapBase f)
  | filtered {view result : View} {labels : List String} :
      Obtained view → view.filter labels = .ok result → Obtained result

theorem Obtained.nodesComplete (h : view.Obtained) : view.NodesComplete := by
  induction h with
  | built hbuilt => exact hbuilt.contract.nodesComplete
  | checked hchecked => exact nodesComplete_of_ofBlocks hchecked
  | moved _ hfresh ih => exact ih.of_fresh hfresh
  | updated _ hids hcolumns ih => exact (nodesComplete_mapBase_iff hids hcolumns _).mpr ih
  | filtered _ hresult ih => exact ih.of_filter hresult

end View

end PackedGraph
