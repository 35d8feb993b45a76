import Mathlib
import PackedGraph.Proofs.Arithmetic.WholeNumbers
import PackedGraph.Proofs.Clustering.KMeans

/-!
# K-means with different numbers of threads

The nodes are split into other ranges if there are more threads, so that the sums of the clusters
are added up in other parts. If addition is exact on the coordinates of the points, the means are
still the same. Runs with different numbers of threads then go through the same worlds, count the
same changes, and end alike.
-/

namespace PackedGraph

variable {R : Type} [Scalar R]

/-! ## Means -/

/-- A coordinate of all points. -/
def coordinatesAt (point : Nat → Point R) (d : Nat) (nodes : List Nat) : List R :=
  nodes.map fun node ↦ (point node).getD d Scalar.zero

section Means

variable {point : Nat → Point R} {community : Nat → Nat} {ranges others : List NodeRange}
variable {cluster d count : Nat} {nodes : List Nat}

theorem coordinateSum_eq (point : Nat → Point R) (d : Nat) (nodes : List Nat) :
    coordinateSum point d nodes = Scalar.sum (coordinatesAt point d nodes) :=
  List.foldl_map.symm

/-- The parts of the ranges are together all coordinates of a cluster. -/
theorem sum_coordinatesAt :
    (ranges.map fun range ↦ (coordinatesAt point d (members community cluster range.nodes) :
      Multiset R)).sum =
      coordinatesAt point d (members community cluster (ranges.flatMap NodeRange.nodes)) := by
  induction ranges with
  | nil => rfl
  | cons range ranges ih =>
    rw [List.map_cons, List.sum_cons, ih, Multiset.coe_add]
    simp only [members, coordinatesAt, List.flatMap_cons, List.filter_append, List.map_append]

theorem coordinatesAt_members_le : (coordinatesAt point d (members community cluster nodes) :
    Multiset R) ≤ coordinatesAt point d nodes :=
  Multiset.coe_le.mpr (List.filter_sublist.map _).subperm

theorem addsUpTo_total_coordinateSum (point : Nat → Point R) (d : Nat)
    (hranges : ranges.flatMap NodeRange.nodes = nodes)
    (hne : members community cluster nodes ≠ []) :
    Scalar.AddsUpTo (coordinatesAt point d (members community cluster nodes) : Multiset R)
      (Scalar.total (ranges.map fun range ↦
        coordinateSum point d (members community cluster range.nodes))) := by
  have hsome : ranges ≠ [] := by
    rintro rfl
    exact hne (hranges ▸ rfl)
  rw [← hranges, ← sum_coordinatesAt]
  refine Scalar.addsUpTo_total ?_ (by simpa using hsome)
  rw [List.forall₂_map_left_iff, List.forall₂_map_right_iff, List.forall₂_same]
  intro range _
  rw [coordinateSum_eq]
  exact Scalar.addsUpTo_sum _

/-- The mean of a cluster with nodes does not depend on the ranges. -/
theorem clusterMean_eq (hranges : ranges.flatMap NodeRange.nodes = nodes)
    (hothers : others.flatMap NodeRange.nodes = nodes)
    (hexact : Scalar.AddExactly (coordinatesAt point d nodes : Multiset R))
    (hne : members community cluster nodes ≠ []) :
    clusterMean point community ranges cluster d =
      clusterMean point community others cluster d := by
  have htotal := hexact _ coordinatesAt_members_le _ _
    (addsUpTo_total_coordinateSum point d hranges hne)
    (addsUpTo_total_coordinateSum point d hothers hne)
  rw [clusterMean, clusterMean, hranges, hothers, htotal]

end Means

namespace Slices

variable {α : Type} {dimension count : Nat} {new others : Nat → Nat → α} {cells : Nat → Nat → Prop}
variable {values after found : Array α}

/-- The elements that replace the same cells determine the array. -/
theorem Patches.eq (h : Patches dimension new cells values after)
    (h' : Patches dimension others cells values found)
    (hsame : ∀ c d, d < dimension → cells c d → new c d = others c d)
    (hsize : values.size = count * dimension) : after = found := by
  apply Array.ext_getElem?
  intro i
  by_cases hi : i < count * dimension
  · have hpositive : 0 < dimension := Nat.pos_of_mul_pos_left (Nat.zero_lt_of_lt hi)
    have hd : i % dimension < dimension := Nat.mod_lt i hpositive
    rw [← Nat.div_add_mod' i dimension]
    by_cases hcell : cells (i / dimension) (i % dimension)
    · rw [h.new_eq _ _ hd hcell, h'.new_eq _ _ hd hcell, hsame _ _ hd hcell]
    · rw [h.old_eq _ _ hd hcell, h'.old_eq _ _ hd hcell]
  · have hout : values.size ≤ i := hsize.trans_le (Nat.le_of_not_lt hi)
    rw [Array.getElem?_eq_none (h.size_eq.trans_le hout),
      Array.getElem?_eq_none (h'.size_eq.trans_le hout)]

theorem size_eq_of_copy {values after : Array α} {start length : Nat} {elements : List α}
    (h : copy values start length elements = .ok after) : after.size = values.size := by
  rw [copy, combine] at h
  split_ifs at h
  rw [← Except.ok.inj h]
  exact size_foldl_modify (fun _ element ↦ element) _ values

end Slices

/-! ## Runs that go through the same worlds -/

namespace ClusterStep

variable {task : ClusterTask R} {world : ClusterWorld R} {steps others : List (ClusterStep R)}
variable {community : Nat → Nat}

/-- Steps for all nodes that have the centroids of the world, and the tallies of some clusters. -/
structure Ready (task : ClusterTask R) (world : ClusterWorld R) (community : Nat → Nat)
    (steps : List (ClusterStep R)) : Prop where
  flatMap_nodes : steps.flatMap (·.range.nodes) = List.range task.count
  steps_fit : ∀ step ∈ steps, step.Fits task ∧ step.centroids = world.centroids
  tallies : ∀ step ∈ steps, step.Tallies task community step.range.nodes

/-- Two runs have come to the same world, with the same clusters and the same number of changes. -/
structure Alike (task : ClusterTask R) (steps : List (ClusterStep R)) (world : ClusterWorld R)
    (others : List (ClusterStep R)) (outside : ClusterWorld R) : Prop where
  world_eq : outside = world
  world_fits : world.Fits task
  ready : ∃ community, Ready task world community steps ∧ Ready task world community others
  swaps_eq : (steps.map swaps).sum = (others.map swaps).sum

theorem Ready.exists_sweep (h : Ready task world community steps) (hvalid : task.Valid)
    (hworld : world.Fits task) (isSettled : Nat → Bool) (iteration : Nat) :
    ∃ swept later, (computation task.dimension isSettled).sweep iteration steps world =
        (swept, later, .ok (decide (0 < (swept.map swaps).sum))) ∧
      Swept task world.centroids steps world swept later :=
  ClusterStep.exists_sweep hvalid h.steps_fit hworld
    (fun _ hnode ↦ List.mem_range.mp (h.flatMap_nodes ▸ hnode))
    (h.flatMap_nodes ▸ List.nodup_range) isSettled iteration

variable {swept mirrored : List (ClusterStep R)} {later beyond : ClusterWorld R}

theorem Swept.ready (h : Swept task world.centroids steps world swept later)
    (hready : Ready task world community steps) :
    Ready task later (task.nearest world.centroids) swept := by
  refine ⟨?_, ?_, h.tallies⟩
  · have hranges (steps : List (ClusterStep R)) :
        steps.flatMap (·.range.nodes) = (steps.map range).flatMap NodeRange.nodes := by
      rw [List.flatMap_map]
    rw [hranges, h.ranges_eq, ← hranges, hready.flatMap_nodes]
  · rw [h.world_eq]
    exact h.steps_fit

theorem Swept.world_fits (h : Swept task world.centroids steps world swept later)
    (hworld : world.Fits task) : later.Fits task := by
  rw [h.world_eq]
  exact ⟨hworld.points_eq, h.size_communities.trans hworld.size_communities, hworld.size_centroids⟩

/-- An iteration assigns the same clusters, however the nodes are split. -/
theorem Swept.alike (h : Swept task world.centroids steps world swept later)
    (h' : Swept task world.centroids others world mirrored beyond)
    (hworld : world.Fits task) (hready : Ready task world community steps)
    (hothers : Ready task world community others) : Alike task swept later mirrored beyond := by
  have hcommunities : beyond.communities = later.communities := by
    apply Array.ext_getElem?
    intro node
    rw [h.communities_eq, h'.communities_eq, hready.flatMap_nodes, hothers.flatMap_nodes]
  have hsame : beyond = later := by
    rw [h.world_eq, h'.world_eq, hcommunities]
  refine ⟨hsame, h.world_fits hworld, ⟨_, h.ready hready, ?_⟩, ?_⟩
  · exact hsame ▸ h'.ready hothers
  · rw [h.swaps_eq, h'.swaps_eq, hready.flatMap_nodes, hothers.flatMap_nodes]

/-- The barrier leaves the tallies of the steps as they are. -/
theorem Ready.exists_moved (h : Ready task world community steps) (hvalid : task.Valid)
    (hworld : world.Fits task) (isSettled : Nat → Bool) (completed : Nat) :
    ∃ after moved, (computation task.dimension isSettled).barrier completed steps world =
        (after, { world with centroids := moved },
          .ok (if isSettled (steps.map swaps).sum then .halt else .proceed)) ∧
      after.map swaps = steps.map swaps ∧ moved.size = task.k * task.dimension ∧
      Ready task { world with centroids := moved } community after ∧
      Moves task community (steps.map range) (fun c _ ↦ c < task.k ∧
        members community c (List.range task.count) ≠ []) world.centroids moved := by
  have htallied : ∀ step ∈ steps, step.Fits task ∧ step.Tallies task community step.range.nodes :=
    fun step hstep ↦ ⟨(h.steps_fit step hstep).1, h.tallies step hstep⟩
  obtain ⟨moved, hbarrier, hsize, hmoves⟩ :=
    ClusterStep.exists_moved hvalid htallied hworld isSettled completed
  have hnodes : (steps.map range).flatMap NodeRange.nodes = List.range task.count := by
    rw [List.flatMap_map, h.flatMap_nodes]
  rw [hnodes] at hmoves
  refine ⟨_, moved, hbarrier, ?_, hsize, ⟨?_, ?_, ?_⟩, hmoves⟩
  · rw [List.map_map]
    rfl
  · rw [List.flatMap_map]
    exact h.flatMap_nodes
  · intro step hstep
    obtain ⟨old, hold, rfl⟩ := List.mem_map.mp hstep
    exact ⟨(htallied old hold).1.setCentroids hsize, rfl⟩
  · intro step hstep
    obtain ⟨old, hold, rfl⟩ := List.mem_map.mp hstep
    obtain ⟨hsizes, hsums⟩ := h.tallies old hold
    exact ⟨hsizes, hsums⟩

/-- If addition is exact, runs that are alike stay so. -/
theorem simulates_alike (hvalid : task.Valid)
    (hexact : ∀ d < task.dimension, Scalar.AddExactly
      (coordinatesAt task.point d (List.range task.count) : Multiset R)) (isSettled : Nat → Bool) :
    (computation task.dimension isSettled).Simulates (computation task.dimension isSettled)
      (Alike task) where
  isTerminated h := by rw [h.world_eq]
  sweep {steps world others outside} iteration h := by
    obtain ⟨rfl, hworld, ⟨community, hready, hothers⟩, _⟩ := h
    obtain ⟨swept, later, hsweep, hswept⟩ := hready.exists_sweep hvalid hworld isSettled iteration
    obtain ⟨mirrored, beyond, hmirror, hmirrored⟩ :=
      hothers.exists_sweep hvalid hworld isSettled iteration
    have halike := hswept.alike hmirrored hworld hready hothers
    rw [← halike.swaps_eq] at hmirror
    exact ⟨_, _, _, _, _, hsweep, hmirror, halike⟩
  barrier {steps world others outside} completed h := by
    obtain ⟨rfl, hworld, ⟨community, hready, hothers⟩, hswaps⟩ := h
    obtain ⟨after, moved, hbarrier, hkept, hsize, hafter, hmoves⟩ :=
      hready.exists_moved hvalid hworld isSettled completed
    obtain ⟨mirrored, found, hmirror, hkept', _, hmirrored, hmoves'⟩ :=
      hothers.exists_moved hvalid hworld isSettled completed
    have hnodes {steps : List (ClusterStep R)} (h : Ready task outside community steps) :
        (steps.map range).flatMap NodeRange.nodes = List.range task.count := by
      rw [List.flatMap_map, h.flatMap_nodes]
    have hsame : moved = found := by
      refine hmoves.eq hmoves' (fun c d hd hcell ↦ ?_) hworld.size_centroids
      exact clusterMean_eq (hnodes hready) (hnodes hothers) (hexact d hd) hcell.2
    subst hsame
    rw [← hswaps] at hmirror
    refine ⟨_, _, _, _, _, hbarrier, hmirror, rfl, ?_, ⟨community, hafter, hmirrored⟩, ?_⟩
    · exact ⟨hworld.points_eq, hworld.size_communities, hsize⟩
    · rw [hkept, hkept', hswaps]

end ClusterStep

namespace ClusterTask

variable {task : ClusterTask R} {centroids : Array R}

/-- Before the first iteration no node is in a cluster. -/
theorem ready_steps (hcentroids : centroids.size = task.k * task.dimension) (concurrency : Nat)
    {world : ClusterWorld R} (hworld : world.centroids = centroids) :
    ClusterStep.Ready task world (fun _ ↦ task.k) (task.steps concurrency centroids) := by
  refine ⟨?_, fun step hstep ↦ hworld ▸ fits_of_mem_steps hcentroids hstep, fun step hstep ↦ ?_⟩
  · rw [← flatMap_rangePartition task.count (batchCount concurrency) 1,
      ← map_range_steps task concurrency centroids, List.flatMap_map]
  · obtain ⟨range, _, rfl⟩ := List.mem_map.mp hstep
    have hnone (c : Nat) (hc : c < task.k) : members (fun _ ↦ task.k) c range.nodes = [] :=
      List.filter_eq_nil_iff.mpr fun _ _ ↦ by simpa using hc.ne'
    constructor
    · intro c hc
      rw [hnone c hc, Array.getElem?_replicate, if_pos hc]
      rfl
    · intro c hc d hd
      rw [hnone c hc, Array.getElem?_replicate, if_pos (Slices.cell_lt hc hd)]
      rfl

/-- If addition is exact, a run finds the same with any number of threads. -/
theorem run_eq_of_addExactly (hvalid : task.Valid)
    (hcentroids : centroids.size = task.k * task.dimension)
    (hexact : ∀ d < task.dimension, Scalar.AddExactly
      (coordinatesAt task.point d (List.range task.count) : Multiset R))
    (stops isSettled : Nat → Bool) (concurrency other : Nat) (isTerminated : Bool) :
    task.run centroids stops isSettled concurrency isTerminated =
      task.run centroids stops isSettled other isTerminated := by
  let world : ClusterWorld R := {
    centroids, isTerminated
    points := task.points
    communities := .replicate task.count none }
  have hswaps (concurrency : Nat) :
      ((task.steps concurrency centroids).map ClusterStep.swaps).sum = 0 := by
    simp [steps, Function.comp_def]
  have hstart : ClusterStep.Alike task (task.steps concurrency centroids) world
      (task.steps other centroids) world :=
    ⟨rfl, ⟨rfl, Array.size_replicate, hcentroids⟩,
      ⟨_, ready_steps hcentroids concurrency rfl, ready_steps hcentroids other rfl⟩,
      (hswaps concurrency).trans (hswaps other).symm⟩
  obtain ⟨hresult, halike⟩ := (ClusterStep.simulates_alike hvalid hexact isSettled).iterate stops
    (UInt64.size - 1) 0 hstart
  have hworld := halike.world_eq
  simp only [run, Computation.run]
  rw [hresult, hworld]

end ClusterTask

namespace KMeans

variable {kmeans : KMeans} {task : ClusterTask Float}

theorem readPoints_withConcurrency (kmeans : KMeans) (concurrency : Nat) (column : Column)
    (points : Array Float) (dimension : Option Nat) (nodes : List Nat) :
    { kmeans with concurrency }.readPoints column points dimension nodes =
      kmeans.readPoints column points dimension nodes := by
  induction nodes generalizing points dimension with
  | nil => rfl
  | cons node nodes ih => simp only [readPoints, ih]

theorem task_withConcurrency (kmeans : KMeans) (concurrency : Nat) :
    { kmeans with concurrency }.task = kmeans.task := by
  simp only [KMeans.task, readPoints_withConcurrency]

theorem size_eq_of_firstCentroids {sample : List Nat} {centroids : Array Float}
    (h : firstCentroids task sample = .ok centroids) :
    centroids.size = task.k * task.dimension := by
  refine of_foldlM_eq_ok (p := fun centroids ↦ centroids.size = task.k * task.dimension)
    Array.size_replicate ?_ h
  rintro centroids ⟨node, cluster⟩ next hsize hnext
  obtain ⟨point, _, hcopied⟩ := exists_of_bind_eq_ok hnext
  exact (Slices.size_eq_of_copy hcopied).trans hsize

/-- A run with any number of threads finds the same, or fails with the same error. -/
theorem clustering_withConcurrency {sampler : Sampler} (hk : 0 < kmeans.k)
    (hexact : ∀ d, Scalar.AddExactly
      (coordinatesAt kmeans.point d (List.range kmeans.view.nodeCount) : Multiset Float))
    (concurrency : Nat) :
    { kmeans with concurrency }.clustering sampler = kmeans.clustering sampler := by
  unfold clustering
  rw [task_withConcurrency]
  dsimp only
  split_ifs with hfew
  · exact bind_congr_of_ok fun _ hthrown ↦ nomatch hthrown
  refine bind_congr_of_ok fun task htask ↦ bind_congr_of_ok fun centroids hcentroids ↦ ?_
  have hsize := size_eq_of_firstCentroids (eq_ok_of_mapError_eq_ok hcentroids)
  obtain ⟨hcount, hclusters, hpoints, hpositive, _, hpoint⟩ := poses_of_task htask
  have hsome : 0 < task.count := hcount ▸ hk.trans_le (Nat.le_of_not_lt hfew)
  have hvalid : task.Valid := ⟨hpositive hsome, hclusters ▸ hk, hpoints⟩
  have hcoordinates (d : Nat) : coordinatesAt task.point d (List.range task.count) =
      coordinatesAt kmeans.point d (List.range kmeans.view.nodeCount) := by
    rw [← hcount]
    refine List.map_congr_left fun node hnode ↦ ?_
    rw [hpoint node (List.mem_range.mp hnode)]
  have htaskExact : ∀ d < task.dimension, Scalar.AddExactly
      (coordinatesAt task.point d (List.range task.count) : Multiset Float) := fun d _ ↦
    hcoordinates d ▸ hexact d
  exact ClusterTask.run_eq_of_addExactly hvalid hsize htaskExact _ _ _ _ _

end KMeans

/-- K-means finds the same with any number of threads, or fails with the same error, if addition is
exact on the coordinates of the points. -/
theorem clusters_do_not_depend_on_concurrency {kmeans : KMeans} {sampler : Sampler}
    (hk : 0 < kmeans.k)
    (hexact : ∀ d, Scalar.AddExactly
      (coordinatesAt kmeans.point d (List.range kmeans.view.nodeCount) : Multiset Float))
    (concurrency : Nat) :
    { kmeans with concurrency }.runWith sampler =
      ({ (kmeans.runWith sampler).1 with concurrency }, (kmeans.runWith sampler).2) := by
  rw [KMeans.runWith, KMeans.runWith, KMeans.clustering_withConcurrency hk hexact]
  cases kmeans.clustering sampler <;> rfl

/-- Five nodes on a line, to be divided into two clusters. They are split into three ranges for one
thread, and into five for two threads. -/
def fiveOnALine : KMeans :=
  let view : View := .packed {
    ids := ⟨.ofList [(7, 0), (5, 1), (9, 2), (4, 3), (8, 4)], #[7, 5, 9, 4, 8], ∅⟩
    columns := (∅ : Std.TreeMap String Column).insert "place" (.double #[1.0, 2.0, 6.0, 7.0, 8.0])
    topology := none
    values := none
    relationshipCount := 0
    isUndirected := false
    hasValues := false
    canRelease := true
    blockTable := 0 }
  { KMeans.new view "place" with k := 2 }

theorem addExactly_fiveOnALine (d : Nat) :
    Scalar.AddExactly (coordinatesAt fiveOnALine.point d (List.range 5) : Multiset Float) := by
  have hcolumn : fiveOnALine.view.column? fiveOnALine.key =
      some (.double #[1.0, 2.0, 6.0, 7.0, 8.0]) := Std.TreeMap.getElem?_insert_self
  have hpoint : fiveOnALine.point = KMeans.coordinates (.double #[1.0, 2.0, 6.0, 7.0, 8.0]) := by
    funext node
    rw [KMeans.point, hcolumn]
    rfl
  rw [hpoint]
  let whole (value : Float) : Int :=
    if value == 1.0 then 1 else if value == 2.0 then 2 else if value == 6.0 then 6
    else if value == 7.0 then 7 else if value == 8.0 then 8 else 0
  cases d with
  | zero =>
    have hfirst : coordinatesAt (KMeans.coordinates (.double #[1.0, 2.0, 6.0, 7.0, 8.0])) 0
        (List.range 5) = [1.0, 2.0, 6.0, 7.0, 8.0] := rfl
    rw [hfirst]
    refine WholeNumbers.addExactly whole ?_ (by decide)
    simp only [Multiset.mem_coe, List.forall_mem_cons]
    exact ⟨rfl, rfl, rfl, rfl, rfl, List.forall_mem_nil _⟩
  | succ d =>
    have hrest : coordinatesAt (KMeans.coordinates (.double #[1.0, 2.0, 6.0, 7.0, 8.0])) (d + 1)
        (List.range 5) = [0.0, 0.0, 0.0, 0.0, 0.0] := rfl
    rw [hrest]
    refine WholeNumbers.addExactly whole ?_ (by decide)
    simp only [Multiset.mem_coe, List.forall_mem_cons]
    exact ⟨rfl, rfl, rfl, rfl, rfl, List.forall_mem_nil _⟩

theorem clusters_of_five_on_a_line_with_two_threads :
    let kmeans := { fiveOnALine with concurrency := 2 }
    rangePartition 5 (batchCount 1) 1 ≠ rangePartition 5 (batchCount 2) 1 ∧
      kmeans.runWith Sample.ofSeed =
        ({ (fiveOnALine.runWith Sample.ofSeed).1 with concurrency := 2 }, .ok ()) ∧
      (kmeans.runWith Sample.ofSeed).1.communities = #[1, 1, 0, 0, 0] := by
  intro kmeans
  have hsuccess : (fiveOnALine.runWith Sample.ofSeed).2 = .ok () := by decide +kernel
  have hcommunities : (fiveOnALine.runWith Sample.ofSeed).1.communities = #[1, 1, 0, 0, 0] := by
    decide +kernel
  have hsame : kmeans.runWith Sample.ofSeed =
      ({ (fiveOnALine.runWith Sample.ofSeed).1 with concurrency := 2 },
        (fiveOnALine.runWith Sample.ofSeed).2) :=
    clusters_do_not_depend_on_concurrency (by decide) addExactly_fiveOnALine 2
  refine ⟨by decide, ?_, ?_⟩
  · rw [hsame, hsuccess]
  · rw [hsame]
    exact hcommunities

end PackedGraph
