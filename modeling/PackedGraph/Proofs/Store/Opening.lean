import PackedGraph.Proofs.Build.Compression
import PackedGraph.Proofs.Memory.Ledger
import PackedGraph.Store.Basic

/-!
# Opening views

A store keeps the graph of its builder in memory, and every view that is opened on it shows this
graph.
-/

namespace PackedGraph

/-- A memory keeps all blocks of a store that was built from what a builder has collected. -/
structure Store.Keeps (store : Store) (memory : Memory) (builder : GraphBuilder) : Prop where
  ids_eq : store.ids = builder.ids.build
  size_columns : ∀ entry ∈ store.columns.toList, entry.2.size = builder.nodeCount
  keys_eq : store.keys = builder.keys
  table : ∃ (table : BlockTable) (topology : Topology),
    memory.tables[store.blockTable]? = some table ∧ table.topology = some topology ∧
      topology.Stores ((List.range builder.nodeCount).map builder.targets) ∧
      topology.elementCount =
        ((List.range builder.nodeCount).map fun node ↦ (builder.targets node).length).sum ∧
      topology.orientation = builder.orientation ∧
      ∀ position < builder.keys.length, ∃ values, table.values[position]? = some (some values) ∧
        values.elementCount = topology.elementCount ∧
        values.Stores ((List.range builder.nodeCount).map (builder.values · position))

/-- A view shows the graph of a builder, with the values of the key at a position or without. -/
structure PackedView.Shows (view : PackedView) (builder : GraphBuilder) (position : Option Nat) :
    Prop where
  ids_eq : view.ids = builder.ids.build
  topology : ∃ reader, view.topology = some reader ∧
    reader.topology.Stores ((List.range builder.nodeCount).map builder.targets)
  relationshipCount_eq : view.relationshipCount =
    ((List.range builder.nodeCount).map fun node ↦ (builder.targets node).length).sum
  isUndirected_eq : view.isUndirected = (builder.orientation == .undirected)
  hasValues_eq : view.hasValues = position.isSome
  values : ∀ p ∈ position, ∃ reader, view.values = some reader ∧
    reader.table.Stores ((List.range builder.nodeCount).map (builder.values · p))

theorem PackedView.Shows.nodeCount_eq {view : PackedView} {builder : GraphBuilder}
    {position : Option Nat} (h : view.Shows builder position) :
    (View.packed view).nodeCount = builder.nodeCount := congrArg IdMap.nodeCount h.ids_eq

/-! ## Building a store -/

/-- Charges the values of a key to an account. -/
def chargeTable (account : Account) (entry : String × ValueTable) :
    StateM Memory (Option ValueTable) := do
  let charge ← Memory.charge account entry.2.sizeInBytes
  return some { entry.2 with charge := some charge }

/-- The bytes of the blocks of a compressed graph. -/
def CompressedGraph.sizeInBytes (graph : CompressedGraph) : Nat :=
  graph.topology.sizeInBytes + (graph.values.map fun entry ↦ entry.2.sizeInBytes).sum

/-- Charging leaves the tables of the memory alone, and adds the bytes to the account. -/
theorem run_mapM_chargeTable (account : Account) (entries : List (String × ValueTable))
    (memory : Memory) :
    ∃ charged ledger,
      (entries.mapM (chargeTable account)).run memory = (charged, { memory with ledger }) ∧
        List.Forall₂ (fun table entry ↦ ∃ charge, table = some { entry.2 with charge }) charged
          entries ∧
        ∀ counter : Nat, ledger.counters[counter]? = memory.ledger.counters[counter]?.map
          (· + Ledger.share account (entries.map fun entry ↦ entry.2.sizeInBytes).sum counter) := by
  induction entries generalizing memory with
  | nil =>
    refine ⟨[], memory.ledger, rfl, .nil, fun counter ↦ ?_⟩
    simp [Ledger.share_zero]
  | cons entry entries ih =>
    let charge := memory.ledger.charge account (UInt64.ofNat entry.2.sizeInBytes)
    obtain ⟨charged, ledger, hrun, hall, hcounters⟩ := ih { memory with ledger := charge.1 }
    refine ⟨some { entry.2 with charge := some charge.2 } :: charged, ledger, ?_,
      .cons ⟨_, rfl⟩ hall, fun counter ↦ ?_⟩
    · rw [List.mapM_cons]
      exact congrArg (fun result ↦
        (some { entry.2 with charge := some charge.2 } :: result.1, result.2)) hrun
    · rw [hcounters, Ledger.getElem?_counters_charge, Option.map_map, List.map_cons, List.sum_cons,
        Ledger.share_add]
      simp only [Function.comp_def, UInt64.add_assoc]

/-- A new store has the blocks of its graph in a new table, and their bytes are charged to its
account. -/
theorem CompressedGraph.run_toStore (graph : CompressedGraph) (account : Account)
    (memory : Memory) :
    ∃ charge charged ledger, (graph.toStore account).run memory =
        (⟨graph.ids, graph.columns, graph.values.map Prod.fst, graph.topology.elementCount,
            graph.topology.orientation, memory.tables.size⟩,
          ⟨ledger, memory.tables.push
            ⟨some { graph.topology with charge := some charge }, charged.toArray, 1⟩⟩) ∧
      List.Forall₂ (fun table entry ↦ ∃ charge, table = some { entry.2 with charge }) charged
        graph.values ∧
      ∀ counter : Nat, ledger.counters[counter]? = memory.ledger.counters[counter]?.map
        (· + Ledger.share account graph.sizeInBytes counter) := by
  let charge := memory.ledger.charge account (UInt64.ofNat graph.topology.sizeInBytes)
  let topology := { graph.topology with charge := some charge.2 }
  obtain ⟨charged, ledger, hrun, hall, hcounters⟩ := run_mapM_chargeTable account graph.values
    { memory with ledger := charge.1 }
  have htoStore := congrArg (fun result : List (Option ValueTable) × Memory ↦
    (Store.mk graph.ids graph.columns (graph.values.map Prod.fst) graph.topology.elementCount
      graph.topology.orientation result.2.tables.size,
      Memory.mk result.2.ledger (result.2.tables.push ⟨some topology, result.1.toArray, 1⟩))) hrun
  refine ⟨charge.2, charged, ledger, htoStore, hall, fun counter ↦ ?_⟩
  rw [hcounters, Ledger.getElem?_counters_charge, Option.map_map, sizeInBytes, Ledger.share_add]
  simp only [Function.comp_def, UInt64.add_assoc]

/-- A new store keeps all of its graph. -/
theorem CompressedGraph.Stores.toStore {graph : CompressedGraph} {builder : GraphBuilder}
    (h : graph.Stores builder) (account : Account) (memory : Memory) :
    ∃ store after, (graph.toStore account).run memory = (store, after) ∧
      store.Keeps after builder := by
  obtain ⟨charge, charged, ledger, htoStore, hall, _⟩ := graph.run_toStore account memory
  refine ⟨_, _, htoStore, h.ids_eq, h.size_columns, h.keys_eq, ?_⟩
  refine ⟨_, _, Array.getElem?_push_size, rfl, ⟨h.topology.indexed, h.topology.packable⟩,
    h.elementCount_eq, h.orientation_eq, fun position hposition ↦ ?_⟩
  have hlength : position < graph.values.length := by
    rwa [← List.length_map, h.keys_eq]
  obtain ⟨table, htable, charge, rfl⟩ := forall₂_lookup hall (List.getElem?_eq_getElem hlength)
  obtain ⟨hcount, hstores⟩ := h.values position _ (List.getElem?_eq_getElem hlength)
  exact ⟨_, List.getElem?_toArray.trans htable, hcount, hstores⟩

theorem CompressedGraph.Stores.keeps_of_run_toStore {graph : CompressedGraph}
    {builder : GraphBuilder} (h : graph.Stores builder) {account : Account} {memory after : Memory}
    {store : Store} (hstore : (graph.toStore account).run memory = (store, after)) :
    store.Keeps after builder := by
  obtain ⟨other, others, hother, hkeeps⟩ := h.toStore account memory
  rw [hstore, Prod.mk.injEq] at hother
  obtain ⟨rfl, rfl⟩ := hother
  exact hkeeps

/-! ## Opening a view -/

/-- The view that is opened on some blocks. -/
def Store.opened (store : Store) (topology : Topology) (values : Option ValueTable)
    (position : Nat) : PackedView where
  ids := store.ids
  columns := store.columns
  topology := some ⟨topology, .exhausted⟩
  values := values.map fun table ↦ ⟨table, .exhausted, position⟩
  relationshipCount := topology.elementCount
  isUndirected := topology.orientation == .undirected
  hasValues := values.isSome
  canRelease := true
  blockTable := store.blockTable

theorem PackedView.run_hold (view : PackedView) (memory : Memory) :
    ∃ ledger, view.hold.run memory = ((), ⟨ledger, memory.tables.modify view.blockTable fun table ↦
      { table with holders := table.holders + 1 }⟩) :=
  ⟨_, rfl⟩

/-- Opening a view changes nothing but the numbers of holders. -/
theorem Store.run_view {store : Store} {memory : Memory} {key : Option String}
    {topology : Topology} {values : Option ValueTable} {position : Nat}
    (hblocks : store.blocks memory key = .ok (topology, values, position))
    (hnodes : topology.nodeCount = store.ids.nodeCount)
    (hcolumns : ∀ entry ∈ store.columns.toList, entry.2.size = store.ids.nodeCount)
    (hvalues : ∀ table ∈ values, table.elementCount = topology.elementCount ∧
      table.addresses.size = topology.nodeCount) :
    ∃ ledger, (store.view key).run.run memory =
      (.ok (.packed (store.opened topology values position)),
        ⟨ledger, memory.tables.modify store.blockTable fun table ↦
          { table with holders := table.holders + 1 }⟩) := by
  have hrelationships : Relationships.ofBlocks topology values = .ok ⟨topology, values⟩ := by
    cases values with
    | none => rfl
    | some table =>
      obtain ⟨hcount, hsize⟩ := hvalues table rfl
      rw [Relationships.ofBlocks, if_neg (not_not.mpr hcount), if_neg (not_not.mpr hsize)]
  have hfind : store.columns.toList.find? (fun entry ↦ entry.2.size != store.ids.nodeCount) =
      none := by
    rw [List.find?_eq_none]
    intro entry hentry
    simpa using hcolumns entry hentry
  have hview : PackedView.ofBlocks store.ids store.columns ⟨topology, values⟩ store.blockTable
      position = .ok (store.opened topology values position) := by
    rw [PackedView.ofBlocks, if_neg (not_not.mpr hnodes), hfind]
    rfl
  have hopened : Except.mapError (fun fault ↦ ViewError.read (.fault fault)) (do
      let relationships ← Relationships.ofBlocks topology values
      PackedView.ofBlocks store.ids store.columns relationships store.blockTable position) =
        .ok (store.opened topology values position) := by
    rw [hrelationships]
    exact congrArg (Except.mapError _) hview
  obtain ⟨ledger, hhold⟩ := (store.opened topology values position).run_hold memory
  refine ⟨ledger, ?_⟩
  simp only [Store.view, run_bind, run_get, run_ofExcept, hblocks, hopened, run_lift, hhold,
    run_pure]
  rfl

/-- No block of a store has been released, or changed, between two memories. -/
def Store.SameBlocks (store : Store) (before now : Memory) : Prop :=
  now.tables[store.blockTable]?.map (fun table ↦ (table.topology, table.values)) =
    before.tables[store.blockTable]?.map fun table ↦ (table.topology, table.values)

theorem Store.Keeps.of_sameBlocks {store : Store} {before now : Memory} {builder : GraphBuilder}
    (h : store.Keeps before builder) (hsame : store.SameBlocks before now) :
    store.Keeps now builder := by
  obtain ⟨table, topology, htable, htopology, hstores, hcount, horientation, hvalues⟩ := h.table
  rw [Store.SameBlocks, htable, Option.map_some, Option.map_eq_some_iff] at hsame
  obtain ⟨other, hother, heq⟩ := hsame
  rw [Prod.mk.injEq] at heq
  refine ⟨h.ids_eq, h.size_columns, h.keys_eq, other, topology, hother, ?_⟩
  rw [heq.1, heq.2]
  exact ⟨htopology, hstores, hcount, horientation, hvalues⟩

/-- Holding a block table does not change its blocks. -/
theorem Store.sameBlocks_hold (store : Store) (memory : Memory) (ledger : Ledger) :
    store.SameBlocks memory ⟨ledger, memory.tables.modify store.blockTable fun table ↦
      { table with holders := table.holders + 1 }⟩ := by
  rw [Store.SameBlocks, Array.getElem?_modify, if_pos rfl, Option.map_map]
  rfl

/-- Every key of a store can be viewed, and so can the graph without values. -/
theorem Store.Keeps.view_eq {store : Store} {memory : Memory} {builder : GraphBuilder}
    (h : store.Keeps memory builder) {key : Option String} (hkey : ∀ k ∈ key, k ∈ builder.keys) :
    ∃ view later, (store.view key).run.run memory = (.ok (.packed view), later) ∧
      view.Shows builder (key.map (builder.keys.idxOf ·)) ∧ view.fresh = view ∧
      store.SameBlocks memory later := by
  obtain ⟨table, topology, htable, htopology, hstores, hcount, horientation, hvalues⟩ := h.table
  have hids : store.ids.nodeCount = builder.nodeCount := by
    rw [h.ids_eq]
    rfl
  have hnodes : topology.nodeCount = store.ids.nodeCount := by
    rw [hids, Topology.nodeCount, hstores.indexed.size_eq, List.length_map, List.length_range]
  have hcolumns : ∀ entry ∈ store.columns.toList, entry.2.size = store.ids.nodeCount := by
    intro entry hentry
    rw [hids]
    exact h.size_columns entry hentry
  cases key with
  | none =>
    have hblocks : store.blocks memory none = .ok (topology, none, 0) := by
      rw [Store.blocks, htable, Option.bind_some, htopology]
      rfl
    obtain ⟨ledger, hrun⟩ := Store.run_view hblocks hnodes hcolumns nofun
    refine ⟨_, _, hrun, ⟨h.ids_eq, ⟨_, rfl, hstores⟩, hcount, ?_, rfl, nofun⟩, rfl,
      store.sameBlocks_hold memory ledger⟩
    exact congrArg (· == Orientation.undirected) horientation
  | some key =>
    have hposition := List.idxOf_lt_length_of_mem (hkey key rfl)
    obtain ⟨values, hentry, helements, htableStores⟩ := hvalues _ hposition
    have hfind : store.keys.findIdx? (· == key) = some (builder.keys.idxOf key) := by
      rw [h.keys_eq, List.findIdx?_eq_some_iff_findIdx_eq]
      exact ⟨hposition, rfl⟩
    have hblocks : store.blocks memory (some key) =
        .ok (topology, some values, builder.keys.idxOf key) := by
      rw [Store.blocks, htable, Option.bind_some, htopology]
      simp only [hfind, Option.bind_some, hentry, Option.join_some]
      rfl
    have hsize : values.addresses.size = topology.nodeCount := by
      rw [hnodes, hids, ← Array.length_toList, htableStores.length_eq, List.length_map,
        List.length_range]
    obtain ⟨ledger, hrun⟩ := Store.run_view hblocks hnodes hcolumns fun other hother ↦ by
      rw [Option.mem_some_iff] at hother
      exact hother ▸ ⟨helements, hsize⟩
    refine ⟨_, _, hrun, ⟨h.ids_eq, ⟨_, rfl, hstores⟩, hcount, ?_, rfl, fun p hp ↦ ?_⟩, rfl,
      store.sameBlocks_hold memory ledger⟩
    · exact congrArg (· == Orientation.undirected) horientation
    · rw [Option.map_some, Option.mem_some_iff] at hp
      exact hp ▸ ⟨_, rfl, htableStores⟩

/-! ## Reading a view -/

namespace PackedView.Shows

variable {view : PackedView} {builder : GraphBuilder} {node : Nat}

theorem reading_eq {position : Option Nat} (h : view.Shows builder position)
    (hnode : node < builder.nodeCount) : view.reading node = ⟨builder.targets node, .ok ()⟩ := by
  obtain ⟨reader, hreader, hstores⟩ := h.topology
  rw [reading, hreader]
  exact hstores.reading_eq (getElem?_map_range hnode)

/-- With values, a view hands out the list of a node of the graph. -/
theorem valueReading_eq {position : Nat} (h : view.Shows builder (some position))
    (hnode : node < builder.nodeCount) (fallback : ValueBits) :
    view.valueReading node fallback =
      ⟨referenceList builder.orientation builder.aggregation builder.arcs.toList node position,
        .ok ()⟩ := by
  obtain ⟨reader, hreader, hstores⟩ := h.topology
  obtain ⟨values, hvalues, htable⟩ := h.values position rfl
  rw [valueReading, h.hasValues_eq, if_pos Option.isSome_some, hreader, hvalues,
    ← builder.zip_targets_values]
  exact hstores.valueReading_eq htable (getElem?_map_range hnode) (getElem?_map_range hnode)
    (builder.length_values node position)

end PackedView.Shows

end PackedGraph
