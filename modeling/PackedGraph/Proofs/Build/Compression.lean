import PackedGraph.Proofs.Build.Columns
import PackedGraph.Proofs.Build.ReferenceLists
import PackedGraph.Proofs.Relation.Stored

/-!
# What a compressed graph stores

Compressing the arcs of a consistent builder stores the list of each node and the values of each
key, unless some list is too long to be counted.
-/

namespace PackedGraph

/-- The value of the key at a position of the relationship that stands for a run. -/
def Aggregation.runValue (aggregation : Aggregation) (key : Nat) (run : Run) : ValueBits :=
  aggregation.merge (run.arcs.map (·.valueAt key))

namespace GraphBuilder

variable (builder : GraphBuilder)

def runs (node : Nat) : List Run :=
  referenceRuns builder.orientation builder.aggregation builder.arcs.toList node

/-- The targets of a node. -/
def targets (node : Nat) : List Nat := (builder.runs node).map Run.target

/-- The values of a node for the key at a position. -/
def values (node key : Nat) : List ValueBits :=
  (builder.runs node).map (builder.aggregation.runValue key)

theorem length_values (node key : Nat) :
    (builder.values node key).length = (builder.targets node).length := by
  rw [values, targets, List.length_map, List.length_map]

theorem zip_targets_values (node key : Nat) :
    (builder.targets node).zip (builder.values node key) =
      referenceList builder.orientation builder.aggregation builder.arcs.toList node key := by
  rw [targets, values, List.zip_map']
  exact builder.aggregation.map_runs _ key

theorem length_referenceList (node key : Nat) :
    (referenceList builder.orientation builder.aggregation builder.arcs.toList node key).length =
      (builder.targets node).length := by
  rw [← zip_targets_values, List.length_zip, length_values, Nat.min_self]

/-- An arc stands in a list at most twice. -/
theorem length_targets_le (node : Nat) :
    (builder.targets node).length ≤ 2 * builder.arcs.toList.length := by
  have hentries (arc : Arc) : (builder.orientation.entries arc).length ≤ 2 := by
    cases builder.orientation with
    | natural => exact Nat.le_succ 1
    | reverse => exact Nat.le_succ 1
    | undirected => exact le_rfl
  have hflat : (builder.arcs.toList.flatMap builder.orientation.entries).length ≤
      2 * builder.arcs.toList.length := by
    induction builder.arcs.toList with
    | nil => exact le_rfl
    | cons arc arcs ih =>
      rw [List.flatMap_cons, List.length_append, List.length_cons]
      have := hentries arc
      omega
  have hsub := (builder.aggregation.targets_sublist
    (nodeEntries builder.orientation builder.arcs.toList node)).length_le
  rw [List.length_map (f := Arc.target), nodeEntries, List.length_mergeSort] at hsub
  exact (hsub.trans (List.length_filter_le _ _)).trans hflat

variable {builder}

/-- Both ends of an entry are nodes, and it has a value for each key. -/
theorem Valid.entries (h : builder.Valid) {arc : Arc} (harc : arc ∈ builder.arcs.toList)
    {entry : Arc} (hentry : entry ∈ builder.orientation.entries arc) :
    entry.source < builder.nodeCount ∧ entry.target < builder.nodeCount ∧
      entry.values.size = builder.keys.length := by
  have hmem := Array.mem_toList_iff.mp harc
  obtain ⟨hsource, htarget⟩ := h.ends_lt arc hmem
  have hvalues := h.size_values arc hmem
  cases horientation : builder.orientation with
  | natural =>
    rw [horientation, Orientation.entries, List.mem_singleton] at hentry
    exact hentry ▸ ⟨hsource, htarget, hvalues⟩
  | reverse =>
    rw [horientation, Orientation.entries, List.mem_singleton] at hentry
    exact hentry ▸ ⟨htarget, hsource, hvalues⟩
  | undirected =>
    rw [horientation, Orientation.entries, List.mem_pair] at hentry
    rcases hentry with rfl | rfl
    · exact ⟨hsource, htarget, hvalues⟩
    · exact ⟨htarget, hsource, hvalues⟩

theorem Valid.nodeEntries (h : builder.Valid) {node : Nat} {entry : Arc}
    (hentry : entry ∈ nodeEntries builder.orientation builder.arcs.toList node) :
    entry.target < builder.nodeCount ∧ entry.values.size = builder.keys.length := by
  obtain ⟨_, arc, harc, hentry⟩ := mem_entries_iff.mp hentry
  exact (h.entries harc hentry).2

theorem Valid.target_lt (h : builder.Valid) {node target : Nat}
    (htarget : target ∈ builder.targets node) : target < builder.nodeCount := by
  have hmem := (builder.aggregation.targets_sublist _).subset htarget
  obtain ⟨entry, hentry, rfl⟩ := List.mem_map.mp hmem
  exact (h.nodeEntries hentry).1

theorem Valid.packable (h : builder.Valid) {node : Nat}
    (hshort : (builder.targets node).length < 2 ^ 32) : Packable (builder.targets node) where
  sorted := pairwise_targets _ _ _ _
  small := fun _ htarget ↦ (h.target_lt htarget).trans_le h.ids.nodeCount_le
  short := hshort

/-- The runs of all nodes. -/
theorem nodeRuns_eq (h : builder.Valid) :
    builder.nodeRuns builder.nodeCount = .ok ((List.range builder.nodeCount).map builder.runs) := by
  have hlayout := builder.orientation.layOut_eq builder.arcs.toList
  have hsource : ((builder.orientation.layOut builder.arcs.toList).mergeSort Arc.le).all
      (·.source < builder.nodeCount) := by
    rw [List.all_eq_true]
    intro entry hentry
    rw [List.mem_mergeSort, hlayout, List.mem_flatMap] at hentry
    obtain ⟨arc, harc, hentry⟩ := hentry
    simpa using (h.entries harc hentry).1
  have hsorted : ((builder.orientation.layOut builder.arcs.toList).mergeSort Arc.le).Pairwise
      fun a b ↦ a.source ≤ b.source := by
    refine (List.pairwise_mergeSort Arc.le_trans Arc.le_total _).imp fun {a b} hab ↦ ?_
    rw [Arc.le_iff] at hab
    omega
  rw [nodeRuns]
  simp only [hsource, if_true]
  rw [cutBySource_eq hsorted fun _ _ ↦ Nat.zero_le _, List.map_map, ← List.range_eq_range']
  congr 2
  funext node
  rw [Function.comp_apply, filter_source_mergeSort, hlayout]
  rfl

/-! ## Packing -/

theorem packTargets_of_holds {block : TargetBlockBuilder} {done : List (List Nat)}
    (h : block.Holds done) (node : Nat) {lists : List (List Run)}
    (hpack : ∀ runs ∈ lists, Packable (runs.map Run.target)) :
    ∃ packed, packTargets block node lists = .ok packed ∧
      packed.Holds (done ++ lists.map (·.map Run.target)) := by
  induction lists generalizing block done node with
  | nil => exact ⟨block, rfl, by simpa using h⟩
  | cons runs lists ih =>
    have hruns := hpack runs List.mem_cons_self
    have hshort : ¬ UInt32.size ≤ runs.length := by
      have hlt := hruns.short
      rw [List.length_map] at hlt
      exact not_le.mpr hlt
    obtain ⟨next, hnext, hholds⟩ := TargetBlockBuilder.add_of_holds h hruns
    obtain ⟨packed, hpacked, hfinal⟩ :=
      ih hholds (node + 1) fun other hother ↦ hpack other (List.mem_cons_of_mem _ hother)
    refine ⟨packed, ?_, by simpa using hfinal⟩
    rw [packTargets, if_neg hshort, hnext]
    exact hpacked

/-- The first list that is too long stops the packing. -/
theorem packTargets_eq_error {block : TargetBlockBuilder} {done : List (List Nat)}
    (h : block.Holds done) (node : Nat) {lists : List (List Run)} {runs : List Run}
    (hpack : ∀ runs ∈ lists, Packable (runs.map Run.target)) (hlong : UInt32.size ≤ runs.length)
    (rest : List (List Run)) :
    packTargets block node (lists ++ runs :: rest) =
      .error (.degreeTooLarge (node + lists.length) runs.length) := by
  induction lists generalizing block done node with
  | nil =>
    rw [List.nil_append, packTargets, if_pos hlong]
    rfl
  | cons first lists ih =>
    have hfirst := hpack first List.mem_cons_self
    have hshort : ¬ UInt32.size ≤ first.length := by
      have hlt := hfirst.short
      rw [List.length_map] at hlt
      exact not_le.mpr hlt
    obtain ⟨next, hnext, hholds⟩ := TargetBlockBuilder.add_of_holds h hfirst
    have hstop := ih hholds (node + 1)
      fun other hother ↦ hpack other (List.mem_cons_of_mem _ hother)
    rw [List.cons_append, packTargets, if_neg hshort, hnext, List.length_cons,
      Nat.add_comm lists.length, ← Nat.add_assoc]
    exact hstop

theorem value_eq_valueAt {arc : Arc} {key : Nat} (h : key < arc.values.size) :
    arc.value key = .ok (arc.valueAt key) := by
  rw [Arc.value, Arc.valueAt, Array.getElem?_eq_getElem h, Array.getD, dif_pos h]
  rfl

theorem mergedValues_eq (aggregation : Aggregation) {key : Nat} {runs : List Run}
    (h : ∀ run ∈ runs, ∀ arc ∈ run.arcs, key < arc.values.size) :
    mergedValues aggregation runs key = .ok (runs.map (aggregation.runValue key)) := by
  apply mapM_eq_ok
  intro run hrun
  have hvalues : run.arcs.mapM (·.value key) = .ok (run.arcs.map (·.valueAt key)) :=
    mapM_eq_ok fun arc harc ↦ value_eq_valueAt (h run hrun arc harc)
  rw [hvalues]
  rfl

theorem packValues_of_holds (aggregation : Aggregation) {block : ValueBlockBuilder}
    {done : List (List ValueBits)} (h : block.Holds done) {key : Nat} {lists : List (List Run)}
    (hkey : ∀ runs ∈ lists, ∀ run ∈ runs, ∀ arc ∈ run.arcs, key < arc.values.size) :
    ∃ packed, packValues aggregation block key lists = .ok packed ∧
      packed.Holds (done ++ lists.map fun runs ↦ runs.map (aggregation.runValue key)) := by
  rw [packValues]
  induction lists generalizing block done with
  | nil => exact ⟨block, rfl, by simpa using h⟩
  | cons runs lists ih =>
    have hadd := ValueBlockBuilder.holds_add h (runs.map (aggregation.runValue key))
    obtain ⟨packed, hpacked, hfinal⟩ :=
      ih hadd fun other hother ↦ hkey other (List.mem_cons_of_mem _ hother)
    refine ⟨packed, ?_, by simpa using hfinal⟩
    rw [List.foldlM_cons, mergedValues_eq aggregation (hkey runs List.mem_cons_self)]
    exact hpacked

/-! ## Settings -/

/-- The settings that a graph can be built with. -/
structure Buildable (builder : GraphBuilder) : Prop where
  one_le_pageShift : 1 ≤ builder.pageShift
  pageShift_le : builder.pageShift ≤ 30
  nodup_keys : builder.keys.Nodup
  empty_notMem_keys : "" ∉ builder.keys

theorem checkKeys_eq_ok_iff {seen keys : List String} :
    checkKeys seen keys = .ok () ↔ keys.Nodup ∧ "" ∉ keys ∧ ∀ key ∈ keys, key ∉ seen := by
  induction keys generalizing seen with
  | nil => simp [checkKeys]
  | cons key keys ih =>
    rw [checkKeys]
    by_cases hempty : key.isEmpty
    · have hkey : key = "" := String.isEmpty_iff.mp hempty
      simp [hkey]
    · have hkey : "" ≠ key := fun h ↦ hempty (h ▸ rfl)
      by_cases hseen : seen.contains key
      · rw [if_neg hempty, if_pos hseen]
        simp only [reduceCtorEq, false_iff]
        rintro ⟨_, _, hall⟩
        exact hall key List.mem_cons_self (List.contains_iff_mem.mp hseen)
      · rw [if_neg hempty, if_neg hseen, ih]
        rw [List.contains_iff_mem] at hseen
        simp only [List.nodup_cons, List.mem_cons, not_or, forall_eq_or_imp]
        grind

/-- The settings are accepted exactly if a graph can be built with them. -/
theorem buildable_iff_checkConfig {builder : GraphBuilder} :
    builder.Buildable ↔ ∃ shift, builder.checkConfig = .ok shift := by
  have hkeys := @checkKeys_eq_ok_iff [] builder.keys
  constructor
  · intro h
    have hcheck := hkeys.mpr ⟨h.nodup_keys, h.empty_notMem_keys, fun key _ ↦ List.not_mem_nil⟩
    refine ⟨⟨builder.pageShift, h.one_le_pageShift, h.pageShift_le⟩, ?_⟩
    rw [checkConfig, PageShift.ofNat, dif_pos ⟨h.one_le_pageShift, h.pageShift_le⟩, hcheck]
    rfl
  · rintro ⟨shift, h⟩
    rw [checkConfig, PageShift.ofNat] at h
    split_ifs at h with hshift
    · cases hcheck : checkKeys [] builder.keys with
      | error error =>
        rw [hcheck] at h
        exact absurd h (by simp [bind, Except.bind, Except.mapError])
      | ok _ =>
        obtain ⟨hnodup, hempty, _⟩ := hkeys.mp hcheck
        exact ⟨hshift.1, hshift.2, hnodup, hempty⟩
    · exact absurd h (by simp [bind, Except.bind, Except.mapError])

end GraphBuilder

/-! ## Compressing -/

/-- A compressed graph stores the lists of a builder, with the values of its keys. -/
structure CompressedGraph.Stores (graph : CompressedGraph) (builder : GraphBuilder) : Prop where
  ids_eq : graph.ids = builder.ids.build
  size_columns : ∀ entry ∈ graph.columns.toList, entry.2.size = builder.nodeCount
  topology : graph.topology.Stores ((List.range builder.nodeCount).map builder.targets)
  elementCount_eq : graph.topology.elementCount =
    ((List.range builder.nodeCount).map fun node ↦ (builder.targets node).length).sum
  orientation_eq : graph.topology.orientation = builder.orientation
  keys_eq : graph.values.map Prod.fst = builder.keys
  values : ∀ (position : Nat) (entry : String × ValueTable), graph.values[position]? = some entry →
    entry.2.elementCount = graph.topology.elementCount ∧
      entry.2.Stores ((List.range builder.nodeCount).map (builder.values · position))

namespace GraphBuilder

variable {builder : GraphBuilder}

theorem Valid.size_values_of_mem_runs (h : builder.Valid) {node : Nat} {run : Run}
    (hrun : run ∈ builder.runs node) {arc : Arc} (harc : arc ∈ run.arcs) :
    arc.values.size = builder.keys.length :=
  (h.nodeEntries (builder.aggregation.mem_of_mem_runs hrun arc harc)).2

/-- Packs the values of the key at a position into a table. -/
def packTable (builder : GraphBuilder) (shift : PageShift) (lists : List (List Run))
    (elementCount : Nat) (entry : String × Nat) : Except BuildError (String × ValueTable) := do
  let packed ← (packValues builder.aggregation (.new shift) entry.2 lists).mapError .fault
  let (block, addresses) := packed.build
  return (entry.1, {
    block, addresses, elementCount, defaultValue := builder.defaultValue, charge := none })

theorem packTable_eq (h : builder.Valid) (shift : PageShift) (elementCount : Nat)
    {entry : String × Nat} (hentry : entry.2 < builder.keys.length) :
    ∃ packed, builder.packTable shift ((List.range builder.nodeCount).map builder.runs)
        elementCount entry = .ok packed ∧
      packed.1 = entry.1 ∧ packed.2.elementCount = elementCount ∧
        packed.2.Stores ((List.range builder.nodeCount).map (builder.values · entry.2)) := by
  have hkey : ∀ runs ∈ (List.range builder.nodeCount).map builder.runs, ∀ run ∈ runs,
      ∀ arc ∈ run.arcs, entry.2 < arc.values.size := by
    intro runs hruns run hrun arc harc
    obtain ⟨node, _, rfl⟩ := List.mem_map.mp hruns
    exact hentry.trans_eq (h.size_values_of_mem_runs hrun harc).symm
  obtain ⟨packed, hpacked, hholds⟩ := packValues_of_holds builder.aggregation
    (ValueBlockBuilder.holds_new shift) hkey
  rw [packTable, hpacked]
  refine ⟨_, rfl, rfl, rfl, ?_⟩
  have hlists := hholds.lists
  rw [List.nil_append, List.map_map] at hlists
  rw [ValueTable.Stores, List.forall₂_map_right_iff]
  exact List.forall₂_map_right_iff.mp hlists

/-- Compressing succeeds if the settings are right and no list is too long. -/
theorem compress_eq (h : builder.Valid) (hbuildable : builder.Buildable)
    (hshort : ∀ node < builder.nodeCount, (builder.targets node).length < 2 ^ 32) :
    ∃ graph, builder.compress = .ok graph ∧ graph.Stores builder := by
  obtain ⟨columns, hcolumns, hsizes⟩ := buildColumns_eq h
  have hpack : ∀ runs ∈ (List.range builder.nodeCount).map builder.runs,
      Packable (runs.map Run.target) := by
    intro runs hruns
    obtain ⟨node, hnode, rfl⟩ := List.mem_map.mp hruns
    exact h.packable (hshort node (List.mem_range.mp hnode))
  obtain ⟨shift, hconfig⟩ := buildable_iff_checkConfig.mp hbuildable
  obtain ⟨packed, hpacked, hholds⟩ :=
    packTargets_of_holds (TargetBlockBuilder.holds_new shift) 0 hpack
  have htables : ∀ entry ∈ builder.keys.zipIdx, ∃ table,
      builder.packTable shift ((List.range builder.nodeCount).map builder.runs)
        packed.build.2.degreeSum entry = .ok table ∧
      table.1 = entry.1 ∧ table.2.elementCount = packed.build.2.degreeSum ∧
        table.2.Stores ((List.range builder.nodeCount).map (builder.values · entry.2)) := by
    intro entry hentry
    exact packTable_eq h shift _ (List.snd_lt_of_mem_zipIdx hentry)
  obtain ⟨tables, hmap, hall⟩ := exists_mapM_eq_ok htables
  have hcompress : builder.compress = .ok ⟨builder.ids.build, columns,
      ⟨packed.build.1, packed.build.2, packed.build.2.degreeSum, builder.orientation, none⟩,
      tables⟩ := by
    have hids : builder.ids.build.nodeCount = builder.nodeCount := rfl
    rw [compress, hconfig]
    simp only [Except.mapError, hids, hcolumns, nodeRuns_eq h, hpacked, bind, Except.bind]
    have hmap := congrArg (Except.map fun values ↦ CompressedGraph.mk builder.ids.build columns
      ⟨packed.build.1, packed.build.2, packed.build.2.degreeSum, builder.orientation, none⟩
      values) hmap
    exact hmap
  have hlists := hholds.lists
  rw [List.nil_append, List.map_map] at hlists
  have hindexed : TargetIndex.Lists packed.build.2 packed.build.1
      ((List.range builder.nodeCount).map builder.targets) := hlists
  have hkeys : tables.map Prod.fst = builder.keys.zipIdx.map Prod.fst := by
    rw [← List.forall₂_eq_eq_eq, List.forall₂_map_left_iff, List.forall₂_map_right_iff]
    exact (hall.imp fun _ _ htable ↦ htable.1).flip
  refine ⟨_, hcompress, rfl, hsizes, ⟨hindexed, ?_⟩, ?_, rfl, ?_, ?_⟩
  · intro targets htargets
    obtain ⟨node, hnode, rfl⟩ := List.mem_map.mp htargets
    exact h.packable (hshort node (List.mem_range.mp hnode))
  · rw [hindexed.degreeSum_eq, List.map_map]
    rfl
  · rw [hkeys, List.zipIdx_map_fst]
  · intro position entry hentry
    obtain ⟨key, hkey, _, hcount, hstores⟩ := forall₂_lookup hall hentry
    have hposition : key.2 = position := by
      rw [List.getElem?_zipIdx, Option.map_eq_some_iff] at hkey
      obtain ⟨_, _, rfl⟩ := hkey
      exact Nat.zero_add position
    exact ⟨hcount, hposition ▸ hstores⟩

/-- The first list that is too long makes compressing fail. -/
theorem compress_eq_error (h : builder.Valid) (hbuildable : builder.Buildable) {node : Nat}
    (hnode : node < builder.nodeCount) (hlong : 2 ^ 32 ≤ (builder.targets node).length)
    (hshort : ∀ earlier < node, (builder.targets earlier).length < 2 ^ 32) :
    builder.compress = .error (.degreeTooLarge node (builder.targets node).length) := by
  obtain ⟨columns, hcolumns, _⟩ := buildColumns_eq h
  obtain ⟨shift, hconfig⟩ := buildable_iff_checkConfig.mp hbuildable
  obtain ⟨count, hcount⟩ := Nat.exists_eq_add_of_lt hnode
  have hsplit : (List.range builder.nodeCount).map builder.runs =
      (List.range node).map builder.runs ++
        builder.runs node :: (List.range' (node + 1) count).map builder.runs := by
    rw [hcount, Nat.add_assoc, List.range_eq_range', ← List.range'_append_1, List.map_append,
      Nat.zero_add, List.range'_succ, List.map_cons, ← List.range_eq_range']
  have hpack : ∀ runs ∈ (List.range node).map builder.runs, Packable (runs.map Run.target) := by
    intro runs hruns
    obtain ⟨earlier, hearlier, rfl⟩ := List.mem_map.mp hruns
    exact h.packable (hshort earlier (List.mem_range.mp hearlier))
  rw [targets, List.length_map] at hlong ⊢
  have hpacked := packTargets_eq_error (TargetBlockBuilder.holds_new shift) 0 hpack hlong
    ((List.range' (node + 1) count).map builder.runs)
  rw [← hsplit, List.length_map, List.length_range, Nat.zero_add] at hpacked
  have hids : builder.ids.build.nodeCount = builder.nodeCount := rfl
  rw [compress, hconfig]
  simp only [Except.mapError, hids, hcolumns, nodeRuns_eq h, hpacked, bind, Except.bind]

theorem exists_first_of_not_forall {f : Nat → Nat} {count bound : Nat}
    (h : ¬ ∀ i < count, f i < bound) : ∃ i < count, bound ≤ f i ∧ ∀ j < i, f j < bound := by
  have hexists : ∃ i, i < count ∧ bound ≤ f i := by simpa using h
  obtain ⟨hlt, hle⟩ := Nat.find_spec hexists
  refine ⟨Nat.find hexists, hlt, hle, fun j hj ↦ ?_⟩
  by_contra hbound
  exact Nat.find_min hexists hj ⟨hj.trans hlt, not_lt.mp hbound⟩

/-- A builder is compressed, unless its settings are wrong, or else some list is too long. -/
theorem Valid.compress_cases (h : builder.Valid) :
    (¬ builder.Buildable ∧ ∃ error, builder.compress = .error (.config error)) ∨
      builder.Buildable ∧
        ((∃ graph, builder.compress = .ok graph ∧ graph.Stores builder) ∨
          ∃ node < builder.nodeCount, 2 ^ 32 ≤ (builder.targets node).length ∧
            builder.compress = .error (.degreeTooLarge node (builder.targets node).length)) := by
  by_cases hbuildable : builder.Buildable
  · refine .inr ⟨hbuildable, ?_⟩
    by_cases hshort : ∀ node < builder.nodeCount, (builder.targets node).length < 2 ^ 32
    · exact .inl (compress_eq h hbuildable hshort)
    · obtain ⟨node, hnode, hlong, hearlier⟩ := exists_first_of_not_forall hshort
      exact .inr ⟨node, hnode, hlong, compress_eq_error h hbuildable hnode hlong hearlier⟩
  · refine .inl ⟨hbuildable, ?_⟩
    cases hconfig : builder.checkConfig with
    | ok shift => exact absurd (buildable_iff_checkConfig.mpr ⟨shift, hconfig⟩) hbuildable
    | error error =>
      refine ⟨error, ?_⟩
      rw [compress, hconfig]
      rfl

/-- Whatever is compressed has the right settings, and stores the graph of the builder. -/
theorem Valid.buildable_and_stores_of_compress (h : builder.Valid) {graph : CompressedGraph}
    (hcompress : builder.compress = .ok graph) : builder.Buildable ∧ graph.Stores builder := by
  rcases h.compress_cases with
    ⟨_, error, herror⟩ | ⟨hbuildable, ⟨other, hother, hstores⟩ | ⟨node, _, _, herror⟩⟩
  · exact nomatch hcompress.symm.trans herror
  · obtain rfl := Except.ok.inj (hcompress.symm.trans hother)
    exact ⟨hbuildable, hstores⟩
  · exact nomatch hcompress.symm.trans herror

theorem Valid.buildable_of_compress (h : builder.Valid) {graph : CompressedGraph}
    (hcompress : builder.compress = .ok graph) : builder.Buildable :=
  (h.buildable_and_stores_of_compress hcompress).1

theorem Valid.stores_of_compress (h : builder.Valid) {graph : CompressedGraph}
    (hcompress : builder.compress = .ok graph) : graph.Stores builder :=
  (h.buildable_and_stores_of_compress hcompress).2

/-- The parts that a graph has been put together from. -/
structure PutsTogether (builder : GraphBuilder) (graph : CompressedGraph) (shift : PageShift)
    (packed : TargetBlockBuilder) : Prop where
  ids_eq : graph.ids = builder.ids.build
  columns : builder.buildColumns builder.nodeCount = .ok graph.columns
  targets : packTargets (.new shift) 0 ((List.range builder.nodeCount).map builder.runs) =
    .ok packed
  topology_eq : graph.topology = ⟨packed.build.1, packed.build.2, packed.build.2.degreeSum,
    builder.orientation, none⟩
  values : builder.keys.zipIdx.mapM (builder.packTable shift
    ((List.range builder.nodeCount).map builder.runs) packed.build.2.degreeSum) = .ok graph.values

theorem Valid.putsTogether_of_compress (h : builder.Valid) {graph : CompressedGraph}
    (hcompress : builder.compress = .ok graph) :
    ∃ shift packed, builder.PutsTogether graph shift packed := by
  rw [compress] at hcompress
  obtain ⟨shift, _, hcompress⟩ := exists_of_bind_eq_ok hcompress
  obtain ⟨columns, hcolumns, hcompress⟩ := exists_of_bind_eq_ok hcompress
  obtain ⟨lists, hlists, hcompress⟩ := exists_of_bind_eq_ok hcompress
  obtain ⟨packed, hpacked, hcompress⟩ := exists_of_bind_eq_ok hcompress
  obtain ⟨values, hvalues, hgraph⟩ := exists_of_bind_eq_ok hcompress
  obtain rfl := Except.ok.inj ((nodeRuns_eq h).symm.trans (eq_ok_of_mapError_eq_ok hlists))
  obtain rfl := Except.ok.inj hgraph
  exact ⟨shift, packed, rfl, eq_ok_of_mapError_eq_ok hcolumns, hpacked, rfl, hvalues⟩

theorem length_targets_performAll_le (calls : List BuilderCall) (node : Nat) :
    ((new.performAll calls).targets node).length ≤ 2 * calls.length := by
  have harcs : (new.performAll calls).arcs.toList = new.acceptedArcs calls :=
    arcs_performAll valid_new calls
  calc ((new.performAll calls).targets node).length
    _ ≤ 2 * (new.acceptedArcs calls).length := harcs ▸ length_targets_le _ node
    _ ≤ 2 * calls.length := Nat.mul_le_mul_left 2 (new.length_acceptedArcs_le calls)

/-- A moderate number of calls makes no list too long. -/
theorem exists_compress_of_length_lt {calls : List BuilderCall}
    (hbuildable : (new.performAll calls).Buildable) (hlength : calls.length < 2 ^ 31) :
    ∃ graph, (new.performAll calls).compress = .ok graph := by
  have hshort (node : Nat) : ((new.performAll calls).targets node).length < 2 ^ 32 := by
    have hle := length_targets_performAll_le calls node
    omega
  obtain ⟨graph, hcompress, _⟩ := compress_eq (valid_new.performAll calls) hbuildable
    fun node _ ↦ hshort node
  exact ⟨graph, hcompress⟩

/-- Data can be compressed with the settings of a new builder. -/
theorem exists_compress_of_isData {calls : List BuilderCall} (hcalls : ∀ call ∈ calls, call.isData)
    (hlength : calls.length < 2 ^ 31) : ∃ graph, (new.performAll calls).compress = .ok graph := by
  have hsettings : (new.performAll calls).settings = new.settings :=
    settings_performAll valid_new hcalls
  simp only [settings, new, Prod.mk.injEq] at hsettings
  obtain ⟨_, _, hkeys, _, hshift, _⟩ := hsettings
  have hbuildable : (new.performAll calls).Buildable :=
    ⟨(by decide : 1 ≤ 18).trans_eq hshift.symm, hshift.trans_le (by decide),
      hkeys ▸ List.nodup_nil, hkeys ▸ List.not_mem_nil⟩
  exact exists_compress_of_length_lt hbuildable hlength

/-- The targets of a node are those of the entries with this source. -/
theorem mem_targets_iff {node target : Nat} :
    target ∈ builder.targets node ↔ ∃ arc ∈ builder.arcs.toList,
      ∃ entry ∈ builder.orientation.entries arc, entry.source = node ∧ entry.target = target := by
  rw [targets, runs, referenceRuns, Aggregation.mem_targets_iff]
  constructor
  · rintro ⟨entry, hentry, htarget⟩
    obtain ⟨hsource, arc, harc, hentry⟩ := mem_entries_iff.mp hentry
    exact ⟨arc, harc, entry, hentry, hsource, htarget⟩
  · rintro ⟨arc, harc, entry, hentry, hsource, htarget⟩
    exact ⟨entry, mem_entries_iff.mpr ⟨hsource, arc, harc, hentry⟩, htarget⟩

end GraphBuilder

end PackedGraph
