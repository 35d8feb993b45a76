import PackedGraph.Proofs.Block.Sizes
import PackedGraph.Proofs.Store.BuildAndRead

/-!
# Bytes of a store

The blocks of a store take exactly the bytes of the encoded lists and of the values, besides one
reserved element for each block and the entries of the nodes. How the blocks are cut into pages
makes no difference. These bytes are charged to the account of the builder.
-/

namespace PackedGraph

namespace GraphBuilder

theorem used_packTargets {block packed : TargetBlockBuilder} {node : Nat} {lists : List (List Run)}
    (hsorted : ∀ runs ∈ lists, (runs.map Run.target).Pairwise (· ≤ ·))
    (hsmall : ∀ runs ∈ lists, ∀ target ∈ runs.map Run.target, target < 2 ^ 64)
    (h : packTargets block node lists = .ok packed) :
    packed.pages.used =
        block.pages.used + (lists.map fun runs ↦ Gap.size (runs.map Run.target)).sum ∧
      packed.slots.size = block.slots.size + lists.length := by
  induction lists generalizing block node with
  | nil =>
    obtain rfl := Except.ok.inj h
    exact ⟨rfl, rfl⟩
  | cons runs lists ih =>
    rw [packTargets] at h
    split_ifs at h with hlong
    · cases h
    obtain ⟨next, hnext, h⟩ := exists_of_bind_eq_ok h
    obtain ⟨hused, hslots⟩ := TargetBlockBuilder.used_add (hsorted runs List.mem_cons_self)
      (hsmall runs List.mem_cons_self) (eq_ok_of_mapError_eq_ok hnext)
    obtain ⟨hrest, hsize⟩ := ih (fun other hother ↦ hsorted other (List.mem_cons_of_mem _ hother))
      (fun other hother ↦ hsmall other (List.mem_cons_of_mem _ hother)) h
    rw [hrest, hused, hsize, hslots, List.map_cons, List.sum_cons, List.length_cons]
    omega

theorem used_packValues {aggregation : Aggregation} {block packed : ValueBlockBuilder} {key : Nat}
    {lists : List (List Run)} (h : packValues aggregation block key lists = .ok packed) :
    packed.pages.used = block.pages.used + (lists.map List.length).sum ∧
      packed.addresses.size = block.addresses.size + lists.length := by
  rw [packValues] at h
  induction lists generalizing block with
  | nil =>
    obtain rfl := Except.ok.inj h
    exact ⟨rfl, rfl⟩
  | cons runs lists ih =>
    rw [List.foldlM_cons] at h
    obtain ⟨next, hnext, h⟩ := exists_of_bind_eq_ok h
    obtain ⟨values, hvalues, hadd⟩ := exists_of_bind_eq_ok hnext
    obtain rfl := Except.ok.inj hadd
    obtain ⟨hused, haddresses⟩ := block.used_add values.toArray
    obtain ⟨hrest, hsize⟩ := ih h
    have hlength : values.toArray.size = runs.length := by
      rw [List.size_toArray]
      exact length_eq_of_mapM_eq_ok hvalues
    rw [hrest, hused, hsize, haddresses, hlength, List.map_cons, List.sum_cons, List.length_cons]
    omega

variable {builder : GraphBuilder} {graph : CompressedGraph} {shift : PageShift}
  {packed : TargetBlockBuilder}

/-- The number of relationships that are stored. -/
def relationshipCount (builder : GraphBuilder) : Nat :=
  ((List.range builder.nodeCount).map fun node ↦ (builder.targets node).length).sum

theorem PutsTogether.sizeInBytes_topology (h : builder.PutsTogether graph shift packed)
    (hvalid : builder.Valid) :
    graph.topology.sizeInBytes =
      1 + ((List.range builder.nodeCount).map fun node ↦ Gap.size (builder.targets node)).sum +
        12 * builder.nodeCount := by
  have hsorted : ∀ runs ∈ (List.range builder.nodeCount).map builder.runs,
      (runs.map Run.target).Pairwise (· ≤ ·) := by
    intro runs hruns
    obtain ⟨node, _, rfl⟩ := List.mem_map.mp hruns
    exact pairwise_targets _ _ _ _
  have hsmall : ∀ runs ∈ (List.range builder.nodeCount).map builder.runs,
      ∀ target ∈ runs.map Run.target, target < 2 ^ 64 := by
    intro runs hruns target htarget
    obtain ⟨node, _, rfl⟩ := List.mem_map.mp hruns
    exact (hvalid.target_lt htarget).trans_le hvalid.ids.nodeCount_le
  obtain ⟨hused, hslots⟩ := used_packTargets hsorted hsmall h.targets
  have hblock : packed.build.1.sizeInBytes = packed.pages.used :=
    packed.pages.sizeInBytes_build.trans (Nat.mul_one _)
  have hindex : packed.build.2.size = builder.nodeCount := by
    calc packed.slots.size
      _ = 0 + ((List.range builder.nodeCount).map builder.runs).length := hslots
      _ = builder.nodeCount := by rw [List.length_map, List.length_range, Nat.zero_add]
  rw [h.topology_eq, Topology.sizeInBytes, hblock, hused, TargetIndex.sizeInBytes, hindex,
    List.map_map]
  change 1 + ((List.range builder.nodeCount).map fun node ↦ Gap.size (builder.targets node)).sum + _
    = _
  omega

theorem sizeInBytes_packTable {elementCount : Nat} {entry : String × Nat}
    {table : String × ValueTable}
    (h : builder.packTable shift ((List.range builder.nodeCount).map builder.runs) elementCount
      entry = .ok table) :
    table.2.sizeInBytes = 8 * (1 + builder.relationshipCount) + 8 * builder.nodeCount := by
  obtain ⟨packed, hpacked, htable⟩ := exists_of_bind_eq_ok h
  obtain rfl := Except.ok.inj htable
  obtain ⟨hused, haddresses⟩ := used_packValues (eq_ok_of_mapError_eq_ok hpacked)
  have hblock : packed.pages.build.sizeInBytes = packed.pages.used * 8 :=
    packed.pages.sizeInBytes_build
  have hlengths : ((List.range builder.nodeCount).map builder.runs).map List.length =
      (List.range builder.nodeCount).map fun node ↦ (builder.targets node).length := by
    rw [List.map_map]
    exact List.map_congr_left fun node _ ↦ (List.length_map Run.target).symm
  change packed.pages.build.sizeInBytes + packed.addresses.size * 8 = _
  rw [hblock, hused, haddresses, hlengths, List.length_map, List.length_range]
  change (1 + builder.relationshipCount) * 8 + (0 + builder.nodeCount) * 8 = _
  omega

theorem PutsTogether.sizeInBytes_values (h : builder.PutsTogether graph shift packed) :
    (graph.values.map fun entry ↦ entry.2.sizeInBytes).sum =
      builder.keys.length * (8 * (1 + builder.relationshipCount) + 8 * builder.nodeCount) := by
  have hall := forall₂_of_mapM_eq_ok h.values
  have hlength : graph.values.length = builder.keys.length := by
    rw [← hall.length_eq, List.length_zipIdx]
  have hsize : ∀ entry ∈ graph.values, entry.2.sizeInBytes =
      8 * (1 + builder.relationshipCount) + 8 * builder.nodeCount := by
    intro entry hentry
    obtain ⟨position, hposition⟩ := List.mem_iff_getElem?.mp hentry
    obtain ⟨key, _, htable⟩ := forall₂_lookup hall hposition
    exact sizeInBytes_packTable htable
  rw [List.map_congr_left hsize, List.map_const', List.sum_replicate, hlength, smul_eq_mul]

theorem Valid.sizeInBytes_of_compress (hvalid : builder.Valid)
    (hcompress : builder.compress = .ok graph) :
    graph.sizeInBytes =
      1 + ((List.range builder.nodeCount).map fun node ↦ Gap.size (builder.targets node)).sum +
        12 * builder.nodeCount +
        builder.keys.length * (8 * (1 + builder.relationshipCount) + 8 * builder.nodeCount) := by
  obtain ⟨shift, packed, h⟩ := hvalid.putsTogether_of_compress hcompress
  rw [CompressedGraph.sizeInBytes, h.sizeInBytes_topology hvalid, h.sizeInBytes_values]

/-- The page size has no influence on what is stored. -/
theorem Valid.compress_setPageShift (hvalid : builder.Valid)
    (hcompress : builder.compress = .ok graph) {pageShift : Nat} (hone : 1 ≤ pageShift)
    (hle : pageShift ≤ 30) :
    ∃ other, compress { builder with pageShift } = .ok other := by
  have hbuildable := hvalid.buildable_of_compress hcompress
  have hother : Valid { builder with pageShift } :=
    ⟨hvalid.ids, hvalid.records, hvalid.ends_lt, hvalid.size_values⟩
  have hshort : ∀ node < builder.nodeCount, (builder.targets node).length < 2 ^ 32 := by
    intro node hnode
    have hmem : builder.targets node ∈ (List.range builder.nodeCount).map builder.targets :=
      List.mem_map_of_mem (List.mem_range.mpr hnode)
    exact ((hvalid.stores_of_compress hcompress).topology.packable _ hmem).short
  obtain ⟨other, heq, _⟩ := compress_eq hother
    ⟨hone, hle, hbuildable.nodup_keys, hbuildable.empty_notMem_keys⟩ hshort
  exact ⟨other, heq⟩

end GraphBuilder

/-- All blocks of a new store are there, so its size is that of the graph. -/
theorem CompressedGraph.sizeInBytes_toStore {graph : CompressedGraph} {account : Account}
    {memory after : Memory} {store : Store}
    (hrun : (graph.toStore account).run memory = (store, after)) :
    store.sizeInBytes after = graph.sizeInBytes ∧
      ∀ counter : Nat, after.ledger.counters[counter]? = memory.ledger.counters[counter]?.map
        (· + Ledger.share account graph.sizeInBytes counter) := by
  obtain ⟨charge, charged, ledger, htoStore, hall, hcounters⟩ := graph.run_toStore account memory
  obtain ⟨rfl, rfl⟩ := Prod.mk.inj (hrun.symm.trans htoStore)
  refine ⟨?_, hcounters⟩
  have hvalues : charged.map (fun values ↦ values.elim 0 ValueTable.sizeInBytes) =
      graph.values.map fun entry ↦ entry.2.sizeInBytes := by
    rw [← List.forall₂_eq_eq_eq, List.forall₂_map_left_iff, List.forall₂_map_right_iff]
    apply hall.imp
    rintro table entry ⟨charge, rfl⟩
    rfl
  simp only [Store.sizeInBytes, Array.getElem?_push_size]
  rw [sizeInBytes, ← hvalues, ← Array.foldl_toList, ← List.sum_eq_foldl, Array.toList_map]
  rfl

/-- Every byte of a store is accounted for, whatever the page size is: the blocks of the targets and
of the values of each key take a reserved element each and the elements of the lists, and a node
takes twelve bytes of the index and eight for the values of each key. The size of the store and what
is charged to the account of the builder are exactly the sum of these. The size of an encoded list,
which is found without encoding it, is the number of bytes that encoding it writes. -/
theorem built_store_accounts_for_every_byte (calls : List BuilderCall) (memory : Memory)
    {built : CompressedGraph} (hbuilt : (GraphBuilder.new.performAll calls).compress = .ok built)
    {pageShift : Nat} (hone : 1 ≤ pageShift) (hle : pageShift ≤ 30) :
    let builder := GraphBuilder.new.performAll calls
    let nodeCount := builder.nodeCount
    let relationshipCount :=
      ((List.range nodeCount).map fun node ↦ (builder.targets node).length).sum
    let bytes := 1 + ((List.range nodeCount).map fun node ↦ Gap.size (builder.targets node)).sum +
      12 * nodeCount + builder.keys.length * (8 * (1 + relationshipCount) + 8 * nodeCount)
    (∃ graph store after, GraphBuilder.compress { builder with pageShift } = .ok graph ∧
      (graph.toStore builder.account).run memory = (store, after) ∧
      store.Keeps after builder ∧ store.relationshipCount = relationshipCount ∧
      store.sizeInBytes after = bytes ∧
      ∀ counter : Nat, after.ledger.counters[counter]? = memory.ledger.counters[counter]?.map
        (· + if builder.account = some counter then UInt64.ofNat bytes else 0)) ∧
    ∀ (buffer : Array UInt8) (targets : List Nat), targets.Pairwise (· ≤ ·) →
      (∀ target ∈ targets, target < 2 ^ 64) →
      ∃ code : Array UInt8, Gap.append buffer targets = (buffer ++ code, .ok (Gap.size targets)) ∧
        code.size = Gap.size targets := by
  intro builder nodeCount relationshipCount bytes
  have hvalid : builder.Valid := GraphBuilder.valid_new.performAll calls
  have hpaged : GraphBuilder.Valid { builder with pageShift } :=
    ⟨hvalid.ids, hvalid.records, hvalid.ends_lt, hvalid.size_values⟩
  obtain ⟨graph, hcompress⟩ := hvalid.compress_setPageShift hbuilt hone hle
  have hstores := hpaged.stores_of_compress hcompress
  obtain ⟨store, after, hrun, hkeeps⟩ := hstores.toStore builder.account memory
  obtain ⟨hsize, hcounters⟩ := CompressedGraph.sizeInBytes_toStore hrun
  have hbytes : graph.sizeInBytes = bytes := hpaged.sizeInBytes_of_compress hcompress
  constructor
  · refine ⟨graph, store, after, hcompress, hrun,
      ⟨hkeeps.ids_eq, hkeeps.size_columns, hkeeps.keys_eq, hkeeps.table⟩, ?_,
      hsize.trans hbytes, hbytes ▸ hcounters⟩
    calc store.relationshipCount
      _ = ((graph.toStore builder.account).run memory).1.relationshipCount := by rw [hrun]
      _ = graph.topology.elementCount := by
        obtain ⟨_, _, _, htoStore, _⟩ := graph.run_toStore builder.account memory
        rw [htoStore]
      _ = relationshipCount := hstores.elementCount_eq
  · intro buffer targets hsorted hsmall
    refine ⟨(Gap.bytesAfter 0 targets).toArray, ?_, ?_⟩
    · rw [Gap.append_of_sorted buffer hsorted, Gap.size_eq hsorted hsmall]
    · rw [Gap.size_eq hsorted hsmall, List.size_toArray]

theorem parallel_arcs_take_the_same_bytes_on_any_page :
    ∃ built, (GraphBuilder.new.performAll parallelCalls).compress = .ok built ∧
      ∀ pageShift, 1 ≤ pageShift → pageShift ≤ 30 → ∃ graph store after,
        GraphBuilder.compress { GraphBuilder.new.performAll parallelCalls with pageShift } =
          .ok graph ∧
        (graph.toStore none).run .empty = (store, after) ∧
        store.sizeInBytes after =
          let builder := GraphBuilder.new.performAll parallelCalls
          1 + ((List.range builder.nodeCount).map fun node ↦ Gap.size (builder.targets node)).sum +
            12 * builder.nodeCount +
            2 * (8 * (1 + builder.relationshipCount) + 8 * builder.nodeCount) := by
  obtain ⟨built, hbuilt⟩ :=
    GraphBuilder.exists_compress_of_length_lt buildable_parallelCalls (by decide)
  have hsettings := settings_parallelCalls
  simp only [GraphBuilder.settings, Prod.mk.injEq] at hsettings
  obtain ⟨_, _, hkeys, _, _, haccount⟩ := hsettings
  refine ⟨built, hbuilt, fun pageShift hone hle ↦ ?_⟩
  obtain ⟨⟨graph, store, after, hcompress, hstore, _, _, hsize, _⟩, _⟩ :=
    built_store_accounts_for_every_byte parallelCalls .empty hbuilt hone hle
  rw [haccount] at hstore
  rw [hkeys] at hsize
  exact ⟨graph, store, after, hcompress, hstore, hsize⟩

end PackedGraph
