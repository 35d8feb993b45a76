import PackedGraph.Proofs.Store.Opening
import PackedGraph.Proofs.View.Contract

/-!
# Views of a store

As long as the blocks of a store can only be released, every view that is opened on it shows the
graph of its builder and keeps the contract of a view.
-/

namespace PackedGraph

/-- Blocks of a store may have been released between two memories, but none was changed. -/
def Store.OnlyReleased (store : Store) (before now : Memory) : Prop :=
  ∀ later, now.tables[store.blockTable]? = some later →
    ∃ earlier, before.tables[store.blockTable]? = some earlier ∧
      (∀ topology, later.topology = some topology → earlier.topology = some topology) ∧
      ∀ (position : Nat) (values : ValueTable), later.values[position]? = some (some values) →
        earlier.values[position]? = some (some values)

theorem Store.OnlyReleased.refl (store : Store) (memory : Memory) :
    store.OnlyReleased memory memory :=
  fun later hlater ↦ ⟨later, hlater, fun _ h ↦ h, fun _ _ h ↦ h⟩

/-- The blocks for a key are there when the topology and the values of the key are. -/
theorem Store.blocks_eq_ok_iff {store : Store} {memory : Memory} {key : Option String}
    {topology : Topology} {values : Option ValueTable} {position : Nat} :
    store.blocks memory key = .ok (topology, values, position) ↔
      ∃ table, memory.tables[store.blockTable]? = some table ∧ table.topology = some topology ∧
        match key with
        | none => values = none ∧ position = 0
        | some key => store.keys.findIdx? (· == key) = some position ∧
          ∃ stored, values = some stored ∧ table.values[position]? = some (some stored) := by
  rw [blocks]
  cases htable : memory.tables[store.blockTable]? with
  | none =>
    constructor
    · rintro ⟨⟩
    · rintro ⟨_, ⟨⟩, _⟩
  | some table =>
    simp only [Option.bind_some, Option.some.injEq, exists_eq_left']
    cases htopology : table.topology with
    | none =>
      constructor
      · rintro ⟨⟩
      · rintro ⟨⟨⟩, _⟩
    | some stored =>
      cases key with
      | none =>
        simp only [pure, Except.pure, Except.ok.injEq, Prod.mk.injEq, Option.some.injEq]
        constructor
        · rintro ⟨rfl, rfl, rfl⟩
          exact ⟨rfl, rfl, rfl⟩
        · rintro ⟨rfl, rfl, rfl⟩
          exact ⟨rfl, rfl, rfl⟩
      | some key =>
        simp only [Option.some.injEq]
        cases hfind : store.keys.findIdx? (· == key) with
        | none =>
          constructor
          · rintro ⟨⟩
          · rintro ⟨_, ⟨⟩, _⟩
        | some found =>
          simp only [Option.some.injEq]
          cases hvalues : table.values[found]?.join with
          | none =>
            rw [Option.join_eq_none_iff] at hvalues
            constructor
            · rintro ⟨⟩
            · rintro ⟨_, rfl, stored, _, hstored⟩
              rw [hstored] at hvalues
              simp at hvalues
          | some held =>
            rw [Option.join_eq_some_iff] at hvalues
            simp only [pure, Except.pure, Except.ok.injEq, Prod.mk.injEq]
            constructor
            · rintro ⟨rfl, rfl, rfl⟩
              exact ⟨rfl, rfl, held, rfl, hvalues⟩
            · rintro ⟨rfl, rfl, other, rfl, hother⟩
              rw [hvalues, Option.some.injEq, Option.some.injEq] at hother
              exact ⟨rfl, congrArg some hother, rfl⟩

/-- A view that cannot be opened leaves the memory as it was. -/
theorem Store.run_view_of_error {store : Store} {memory : Memory} {key : Option String}
    {error : ViewError} (h : store.blocks memory key = .error error) :
    (store.view key).run.run memory = (.error error, memory) := by
  simp only [Store.view, run_bind, run_get, run_ofExcept, h]

/-- What is found for a key shows the graph, and fits together to a view. -/
theorem Store.Keeps.shows_of_blocks {store : Store} {before now : Memory} {builder : GraphBuilder}
    (h : store.Keeps before builder) (honly : store.OnlyReleased before now) {key : Option String}
    {topology : Topology} {values : Option ValueTable} {position : Nat}
    (hblocks : store.blocks now key = .ok (topology, values, position)) :
    (store.opened topology values position).Shows builder (values.map fun _ ↦ position) ∧
      ∃ ledger, (store.view key).run.run now =
        (.ok (.packed (store.opened topology values position)),
          ⟨ledger, now.tables.modify store.blockTable fun table ↦
            { table with holders := table.holders + 1 }⟩) := by
  obtain ⟨later, hlater, htopology, hkey⟩ := Store.blocks_eq_ok_iff.mp hblocks
  obtain ⟨earlier, hearlier, htopologies, hvalues⟩ := honly later hlater
  obtain ⟨table, stored, htable, hstored, hstores, hcount, horientation, hlists⟩ := h.table
  rw [hearlier, Option.some.injEq] at htable
  subst htable
  rw [htopologies topology htopology, Option.some.injEq] at hstored
  subst hstored
  have hids : store.ids.nodeCount = builder.nodeCount := congrArg IdMap.nodeCount h.ids_eq
  have hnodes : topology.nodeCount = store.ids.nodeCount := by
    rw [hids, Topology.nodeCount, hstores.indexed.size_eq, List.length_map, List.length_range]
  have hcolumns : ∀ entry ∈ store.columns.toList, entry.2.size = store.ids.nodeCount := by
    rw [hids]
    exact h.size_columns
  have hfits : ∀ values' ∈ values, values'.elementCount = topology.elementCount ∧
      values'.Stores ((List.range builder.nodeCount).map (builder.values · position)) := by
    intro values' hvalues'
    cases key with
    | none => simp [hkey.1] at hvalues'
    | some key =>
      obtain ⟨hposition, held, rfl, hheld⟩ := hkey
      rw [Option.mem_some_iff] at hvalues'
      rw [h.keys_eq] at hposition
      obtain ⟨kept, hkept, hcounts, hkeptStores⟩ := hlists position
        (List.findIdx?_eq_some_iff_getElem.mp hposition).1
      rw [hvalues position held hheld, Option.some.injEq, Option.some.injEq] at hkept
      rw [← hvalues', hkept]
      exact ⟨hcounts, hkeptStores⟩
  refine ⟨⟨h.ids_eq, ⟨_, rfl, hstores⟩, hcount, ?_, ?_, ?_⟩, ?_⟩
  · exact congrArg (· == Orientation.undirected) horientation
  · exact Option.isSome_map.symm
  · intro p hp
    rw [Option.mem_def, Option.map_eq_some_iff] at hp
    obtain ⟨held, hheld, rfl⟩ := hp
    exact ⟨⟨held, .exhausted, position⟩, by rw [Store.opened, hheld]; rfl, (hfits held hheld).2⟩
  · apply Store.run_view hblocks hnodes hcolumns
    intro table htable
    obtain ⟨hcounts, hstoresTable⟩ := hfits table htable
    refine ⟨hcounts, ?_⟩
    rw [hnodes, hids, ← Array.length_toList, hstoresTable.length_eq, List.length_map,
      List.length_range]

/-- What can be opened on a store shows the graph of its builder. -/
theorem Store.Keeps.shows_of_run_view {store : Store} {before now later : Memory}
    {builder : GraphBuilder} (h : store.Keeps before builder)
    (honly : store.OnlyReleased before now) {key : Option String} {view : View}
    (hview : (store.view key).run.run now = (.ok view, later)) :
    ∃ packed position, view = .packed packed ∧ packed.Shows builder position ∧
      packed.columns = store.columns := by
  cases hblocks : store.blocks now key with
  | error error =>
    rw [Store.run_view_of_error hblocks] at hview
    exact absurd (congrArg Prod.fst hview) nofun
  | ok found =>
    obtain ⟨topology, values, position⟩ := found
    obtain ⟨hshows, ledger, hrun⟩ := h.shows_of_blocks honly hblocks
    rw [hrun, Prod.mk.injEq, Except.ok.injEq] at hview
    exact ⟨_, _, hview.1.symm, hshows, rfl⟩

/-- Every target is handed out with some value. -/
theorem PackedView.Shows.exists_valueReading_eq {view : PackedView} {builder : GraphBuilder}
    {position : Option Nat} (h : view.Shows builder position) {node : Nat}
    (hnode : node < builder.nodeCount) (fallback : ValueBits) :
    ∃ pairs, view.valueReading node fallback = ⟨pairs, .ok ()⟩ ∧
      pairs.map Prod.fst = builder.targets node := by
  cases position with
  | none =>
    refine ⟨(builder.targets node).map fun target ↦ (target, fallback), ?_, ?_⟩
    · rw [PackedView.valueReading, h.hasValues_eq, if_neg (Bool.not_eq_true _ ▸ rfl),
        h.reading_eq hnode, Reading.map]
    · rw [List.map_map]
      exact List.map_id _
  | some position =>
    refine ⟨_, h.valueReading_eq hnode fallback, ?_⟩
    rw [← builder.zip_targets_values, List.map_fst_zip (builder.length_values node position).ge]

/-- A view that shows a graph keeps the contract of a view. -/
theorem PackedView.Shows.contract {view : PackedView} {builder : GraphBuilder}
    {position : Option Nat} (h : view.Shows builder position) (hvalid : builder.Valid)
    (hcolumns : ∀ entry ∈ view.columns.toList, entry.2.size = builder.nodeCount) :
    (View.packed view).Contract := by
  obtain ⟨reader, hreader, hstores⟩ := h.topology
  have hcount : (View.packed view).nodeCount = builder.nodeCount :=
    congrArg IdMap.nodeCount h.ids_eq
  have hreading {node : Nat} (hnode : node < (View.packed view).nodeCount) :
      (View.packed view).reading node = ⟨builder.targets node, .ok ()⟩ :=
    h.reading_eq (hcount ▸ hnode)
  have htargets {node : Nat} (hnode : node < (View.packed view).nodeCount) :
      (View.packed view).targets node = builder.targets node :=
    congrArg Reading.elements (hreading hnode)
  have hvalues {node : Nat} (hnode : node < (View.packed view).nodeCount) (fallback : ValueBits) :
      ∃ pairs, (View.packed view).valueReading node fallback = ⟨pairs, .ok ()⟩ ∧
        pairs.map Prod.fst = builder.targets node :=
    h.exists_valueReading_eq (hcount ▸ hnode) fallback
  constructor
  case handsOut =>
    intro node hnode
    rw [View.handsOut_iff, hreading hnode, htargets hnode]
  case handsOutValues =>
    intro node hnode fallback
    obtain ⟨pairs, hpairs, _⟩ := hvalues hnode fallback
    rw [View.handsOutValues_iff, View.valuedTargets, hpairs]
  case map_fst_valuedTargets =>
    intro node hnode fallback
    obtain ⟨pairs, hpairs, hfst⟩ := hvalues hnode fallback
    rw [View.valuedTargets, hpairs, htargets hnode]
    exact hfst
  case sorted =>
    intro node hnode
    rw [htargets hnode]
    exact pairwise_targets _ _ _ _
  case target_lt =>
    intro node hnode
    rw [htargets hnode, hcount]
    exact fun target ↦ hvalid.target_lt
  case degree_eq =>
    intro node hnode
    rw [htargets hnode, View.degree, hreader]
    exact hstores.indexed.degree_eq (getElem?_map_range (hcount ▸ hnode))
  case relationshipCount_eq =>
    rw [View.relationshipCount, h.relationshipCount_eq, hcount]
    congr 1
    apply List.map_congr_left
    intro node hnode
    rw [htargets (hcount ▸ List.mem_range.mp hnode)]
  case original_iff =>
    intro node
    rw [View.original, IdMap.original, View.nodeCount, IdMap.nodeCount]
    cases horiginal : view.ids.originals[node]? with
    | none => simpa using horiginal
    | some original => simpa using (Array.getElem?_eq_some_iff.mp horiginal).1
  case node?_iff =>
    intro original node
    rw [View.node?, View.original, IdMap.original, h.ids_eq]
    rw [show builder.ids.build.node? original = builder.ids.node? original from rfl, hvalid.ids,
      show builder.ids.build.originals = builder.ids.originals from rfl]
    cases builder.ids.originals[node]? <;> simp
  case hasLabel => exact fun node _ label ↦ ⟨_, rfl⟩
  case size_columns =>
    intro key column hcolumn
    rw [hcount]
    exact hcolumns (key, column) (Std.TreeMap.mem_toList_iff_getElem?_eq_some.mpr hcolumn)

end PackedGraph
