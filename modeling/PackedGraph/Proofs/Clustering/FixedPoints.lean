import Mathlib
import PackedGraph.Proofs.Clustering.Fractions
import PackedGraph.Proofs.Clustering.KMeans
import PackedGraph.Proofs.Clustering.Nearest

/-!
# Fixed points of k-means

A run that ends because no node has changed its cluster ends at a fixed point: if all nodes are
assigned again, and the centroids are moved again, then neither clusters nor centroids change. The
barrier is left out after the last iteration of such a run, but the barrier before it has moved the
centroids to the means of the same clusters. With a threshold of zero, this is the only way to
converge.
-/

namespace PackedGraph

namespace Slices

variable {α : Type} {values after : Array α} {count dimension : Nat}

/-- The rows of an array, one after another, are its elements. -/
theorem flatten_rows (hsize : values.size = count * dimension) :
    ((List.range count).map (row values dimension)).flatten = values.toList := by
  have hrows (n : Nat) : ((List.range n).map (row values dimension)).flatten =
      values.toList.take (n * dimension) := by
    induction n with
    | zero => rw [Nat.zero_mul, List.take_zero]; rfl
    | succ n ih =>
      rw [List.range_succ, List.map_append, List.flatten_append, ih, Nat.succ_mul, List.take_add,
        List.map_singleton, List.flatten_singleton, row, Array.toList_extract,
        List.extract_eq_take_drop, Nat.add_sub_cancel_left]
  rw [hrows, ← hsize, ← Array.length_toList, List.take_length]

/-- New elements that are the old ones change nothing. -/
theorem Patches.eq_of_same {new : Nat → Nat → α} {cells : Nat → Nat → Prop}
    (h : Patches dimension new cells values after) (hdimension : 0 < dimension)
    (hsame : ∀ c d, d < dimension → cells c d → values[c * dimension + d]? = some (new c d)) :
    after = values := by
  apply Array.ext_getElem?
  intro i
  have hd : i % dimension < dimension := Nat.mod_lt i hdimension
  rw [← Nat.div_add_mod' i dimension]
  by_cases hcell : cells (i / dimension) (i % dimension)
  · rw [h.new_eq _ _ hd hcell, hsame _ _ hd hcell]
  · exact h.old_eq _ _ hd hcell

end Slices

variable {R : Type} [Scalar R]

namespace ClusterTask

variable {task : ClusterTask R} {ranges : List NodeRange} {completed : Nat}
variable {steps swept : List (ClusterStep R)} {world later : ClusterWorld R}
variable {stops isSettled : Nat → Bool}

/-- The centroid that a cluster has when it is moved to the mean of its nodes, unless it has none. -/
def recomputed (task : ClusterTask R) (ranges : List NodeRange) (communities : Array Nat)
    (centroids : List (Point R)) (cluster : Nat) : Point R :=
  let community := fun node ↦ communities.getD node 0
  if (members community cluster (List.range task.count)).isEmpty then centroids.getD cluster []
  else (List.range task.dimension).map (clusterMean task.point community ranges cluster)

/-- The world of a computation in which the nodes have clusters already. -/
def resumed (task : ClusterTask R) (communities : Array Nat) (centroids : List (Point R)) :
    ClusterWorld R where
  points := task.points
  communities := communities.map some
  centroids := centroids.flatten.toArray
  isTerminated := false

/-- Clusters and centroids that do not change when nodes are assigned and centroids are moved. -/
structure IsFixedPoint (task : ClusterTask R) (concurrency : Nat) (communities : Array Nat)
    (centroids : List (Point R)) : Prop where
  communities_eq : communities =
    ((List.range task.count).map fun node ↦ nearestCluster centroids (task.point node)).toArray
  centroids_eq : centroids = (List.range task.k).map
    (task.recomputed (rangePartition task.count (batchCount concurrency) 1) communities centroids)
  /-- One more iteration finds no change, and a barrier after it would move no centroid. -/
  iteration_eq : ∀ isSettled iteration,
    let world := task.resumed communities centroids
    ∃ swept, (ClusterStep.computation task.dimension isSettled).sweep iteration
        (task.steps concurrency world.centroids) world = (swept, world, .ok false) ∧
      ClusterStep.moveCentroids swept task.dimension world.centroids = .ok world.centroids

theorem IsFixedPoint.getD_communities {concurrency : Nat} {communities : Array Nat}
    {centroids : List (Point R)} (h : task.IsFixedPoint concurrency communities centroids)
    {node : Nat} (hnode : node < task.count) :
    communities.getD node 0 = nearestCluster centroids (task.point node) := by
  rw [h.communities_eq]
  simp [hnode]

/-! ## Clusters of the nearest centroids -/

theorem Clustered.congr {community other : Nat → Nat} (h : task.Clustered ranges community world)
    (hsplit : ranges.flatMap NodeRange.nodes = List.range task.count)
    (hsame : ∀ node < task.count, community node = other node) :
    task.Clustered ranges other world := by
  have hnodes : ∀ node ∈ ranges.flatMap NodeRange.nodes, community node = other node :=
    fun node hnode ↦ hsame node (List.mem_range.mp (hsplit ▸ hnode))
  constructor
  · exact fun node hnode ↦ hsame node hnode ▸ h.community_lt node hnode
  · exact fun node hnode ↦ hsame node hnode ▸ h.communities_eq node hnode
  · intro c hc hne d hd
    rw [← members_congr hnodes c] at hne
    rw [h.centroids_eq c hc hne d hd, clusterMean_congr (fun _ _ ↦ rfl) hnodes]

/-- After an iteration without a change, all nodes are in the clusters of their nearest centroids. -/
theorem Reached.clustered_nearest_of_unchanged (h : task.Reached ranges completed steps world)
    (hcount : 0 < task.count) (hsplit : ranges.flatMap NodeRange.nodes = List.range task.count)
    (hswept : ClusterStep.Swept task world.centroids steps world swept later)
    (hunchanged : (swept.map ClusterStep.swaps).sum = 0) :
    later = world ∧ task.Clustered ranges (task.nearest world.centroids) world := by
  obtain ⟨rfl, community, hclustered⟩ :=
    h.clustered_of_unchanged hcount hsplit hswept hunchanged
  refine ⟨rfl, hclustered.congr hsplit fun node hnode ↦ ?_⟩
  have hcommunity := hclustered.communities_eq node hnode
  rw [h.communities_of_swept hsplit hswept hnode] at hcommunity
  exact (Option.some.inj (Option.some.inj hcommunity)).symm

/-- A run that ends after an iteration without a change leaves all nodes in the clusters of their
nearest centroids. -/
theorem clustered_nearest_of_endsUnchanged (hvalid : task.Valid) (hcount : 0 < task.count)
    (hsplit : ranges.flatMap NodeRange.nodes = List.range task.count)
    (hstart : task.Reached ranges 0 steps world)
    (hends : (ClusterStep.computation task.dimension isSettled).EndsUnchanged stops steps world) :
    let ended := (ClusterStep.computation task.dimension isSettled).run stops steps world
    (∃ iterations, ended.result = .ok ⟨iterations, true⟩) ∧ ended.world.Fits task ∧
      task.Clustered ranges (task.nearest ended.world.centroids) ended.world := by
  obtain ⟨k, now, between, after, final, hreaches, hsweep, hrun⟩ := hends
  have hreached := reached_of_reaches hvalid hsplit hstart hreaches
  obtain ⟨hswept, hflag⟩ := hreached.swept_of_sweep hvalid hsplit hsweep
  have hswaps := of_decide_eq_false hflag.symm
  obtain ⟨rfl, hclustered⟩ :=
    hreached.clustered_nearest_of_unchanged hcount hsplit hswept (Nat.eq_zero_of_not_pos hswaps)
  rw [hrun]
  exact ⟨⟨k + 1, rfl⟩, hreached.world_fits, hclustered⟩

/-- The barrier is the only other way to converge, and it halts no run in which a positive number
of nodes is not settled. -/
theorem endsUnchanged_of_didConverge (hvalid : task.Valid)
    (hsplit : ranges.flatMap NodeRange.nodes = List.range task.count)
    (hstart : task.Reached ranges 0 steps world)
    (hsettled : ∀ swaps, 0 < swaps → swaps ≤ task.count → isSettled swaps = false)
    {outcome : Outcome}
    (hresult : ((ClusterStep.computation task.dimension isSettled).run stops steps world).result =
      .ok outcome) (hconverged : outcome.didConverge = true) :
    (ClusterStep.computation task.dimension isSettled).EndsUnchanged stops steps world := by
  rcases Computation.endsUnchanged_or_halts hresult hconverged with
    hends | ⟨k, now, between, swept, later, after, final, hreaches, hsweep, hbarrier⟩
  · exact hends
  have hreached := reached_of_reaches hvalid hsplit hstart hreaches
  obtain ⟨hswept, hflag⟩ := hreached.swept_of_sweep hvalid hsplit hsweep
  have hpositive := of_decide_eq_true hflag.symm
  have hle : (swept.map ClusterStep.swaps).sum ≤ task.count := by
    rw [hswept.swaps_eq, hreached.flatMap_nodes hsplit]
    exact List.countP_le_length.trans_eq List.length_range
  obtain ⟨moved, outside, hmoved, _⟩ := hreached.exists_barrier hvalid hsplit hswept isSettled
  rw [hsettled _ hpositive hle] at hmoved
  have hverdict := congrArg (·.2.2) (hbarrier.symm.trans hmoved)
  exact nomatch Except.ok.inj hverdict

/-! ## Another iteration -/

/-- Clusters of the nearest centroids stay the same in another iteration, and so do the centroids. -/
theorem Clustered.exists_sweep_again {concurrency : Nat}
    (h : task.Clustered (rangePartition task.count (batchCount concurrency) 1)
      (task.nearest world.centroids) world)
    (hvalid : task.Valid) (hworld : world.Fits task) (isSettled : Nat → Bool) (iteration : Nat) :
    ∃ swept, (ClusterStep.computation task.dimension isSettled).sweep iteration
        (task.steps concurrency world.centroids) world = (swept, world, .ok false) ∧
      ClusterStep.moveCentroids swept task.dimension world.centroids = .ok world.centroids := by
  have hsplit := flatMap_rangePartition task.count (batchCount concurrency) 1
  have hranges := map_range_steps task concurrency world.centroids
  have hnodes : (task.steps concurrency world.centroids).flatMap (·.range.nodes) =
      List.range task.count := by
    rw [← hsplit, ← hranges, List.flatMap_map]
  obtain ⟨swept, later, hsweep, hswept⟩ := ClusterStep.exists_sweep hvalid
    (fun _ hstep ↦ fits_of_mem_steps hworld.size_centroids hstep) hworld
    (fun node hnode ↦ List.mem_range.mp (hnodes ▸ hnode)) (hnodes ▸ List.nodup_range) isSettled
    iteration
  have hswaps : (swept.map ClusterStep.swaps).sum = 0 := by
    rw [hswept.swaps_eq, hnodes, List.countP_eq_zero]
    intro node hnode
    simpa using h.communities_eq node (List.mem_range.mp hnode)
  have hlater : later = world := by
    have hcommunities : later.communities = world.communities := by
      apply Array.ext_getElem?
      intro node
      rw [hswept.communities_eq, hnodes]
      split_ifs with hnode
      · exact (h.communities_eq node (List.mem_range.mp hnode)).symm
      · rfl
    rw [hswept.world_eq, hcommunities]
  obtain ⟨moved, hmoved, hmoves⟩ :=
    ClusterStep.exists_moveCentroids hvalid hswept.tallies hworld.size_centroids
  rw [hswept.ranges_eq, hranges] at hmoves
  have hsame : moved = world.centroids :=
    hmoves.eq_of_same hvalid.dimension_pos fun c d hd hcell ↦ h.centroids_eq c hcell.1 hcell.2 d hd
  rw [hlater, hswaps] at hsweep
  exact ⟨swept, hsweep, hsame ▸ hmoved⟩

theorem eq_of_found {outcome : Outcome} {found : Clustering R}
    (h : task.found world outcome = .ok found) (hvalid : task.Valid) (hworld : world.Fits task) :
    found.outcome = outcome ∧
      found.centroids = (List.range task.k).map (Slices.row world.centroids task.dimension) := by
  obtain ⟨communities, _, hrest⟩ := exists_of_bind_eq_ok h
  obtain ⟨distances, _, hrest⟩ := exists_of_bind_eq_ok hrest
  rw [Slices.chunks_eq hvalid.dimension_pos hworld.size_centroids, ok_bind] at hrest
  rw [← Except.ok.inj hrest]
  exact ⟨rfl, rfl⟩

end ClusterTask

/-- A centroid is found where it would be moved again. -/
theorem Clustering.Describes.getD_eq_recomputed {found : Clustering R} {task : ClusterTask R}
    {ranges : List NodeRange} {community : Nat → Nat} (h : found.Describes task ranges community)
    (hsplit : ranges.flatMap NodeRange.nodes = List.range task.count) {cluster : Nat}
    (hcluster : cluster < task.k) : found.centroids.getD cluster [] =
      task.recomputed ranges found.communities found.centroids cluster := by
  have hcommunity : ∀ node ∈ ranges.flatMap NodeRange.nodes,
      community node = found.communities.getD node 0 := fun node hnode ↦
    (h.getD_communities (List.mem_range.mp (hsplit ▸ hnode))).symm
  rw [ClusterTask.recomputed, ← hsplit, ← members_congr hcommunity cluster]
  split_ifs with hempty
  · rfl
  · rw [h.centroids_eq cluster hcluster (mt List.isEmpty_iff.mpr hempty),
      clusterMean_congr (fun _ _ ↦ rfl) hcommunity]

namespace ClusterTask

variable {task : ClusterTask R} {world : ClusterWorld R}

/-- What is found at the end of a run holds the world of the run, apart from its flag. -/
theorem Clustered.resumed_eq {ranges : List NodeRange} {community : Nat → Nat}
    {found : Clustering R} (h : task.Clustered ranges community world) (hworld : world.Fits task)
    (hdescribes : found.Describes task ranges community)
    (hrows : found.centroids =
      (List.range task.k).map (Slices.row world.centroids task.dimension)) :
    task.resumed found.communities found.centroids = { world with isTerminated := false } := by
  have hcommunities : found.communities.map some = world.communities := by
    have htoList := congrArg List.toArray (h.toList_communities hworld)
    rw [Array.toArray_toList] at htoList
    rw [htoList, hdescribes.communities_eq, List.map_toArray, List.map_map]
  rw [resumed, hcommunities, hrows, Slices.flatten_rows hworld.size_centroids, ← hworld.points_eq]

/-- What is found at the end of a run is a fixed point if all nodes are in the clusters of their
nearest centroids. -/
theorem Clustered.isFixedPoint {concurrency : Nat}
    (h : task.Clustered (rangePartition task.count (batchCount concurrency) 1)
      (task.nearest world.centroids) world)
    (hvalid : task.Valid) (hworld : world.Fits task) {outcome : Outcome} {found : Clustering R}
    (hfound : task.found world outcome = .ok found) :
    task.IsFixedPoint concurrency found.communities found.centroids := by
  have hsplit := flatMap_rangePartition task.count (batchCount concurrency) 1
  obtain ⟨described, hdescribed, _, hdescribes⟩ := h.exists_found hvalid hworld outcome
  obtain rfl : found = described := Except.ok.inj (hfound.symm.trans hdescribed)
  obtain ⟨_, hrows⟩ := eq_of_found hfound hvalid hworld
  have hresumed := h.resumed_eq hworld hdescribes hrows
  constructor
  · rw [hdescribes.communities_eq, hrows]
    rfl
  · apply List.ext_getElem
    · rw [hdescribes.length_centroids, List.length_map, List.length_range]
    intro cluster hcluster _
    rw [List.getElem_map, List.getElem_range, ← List.getD_eq_getElem _ [] hcluster]
    exact hdescribes.getD_eq_recomputed hsplit (hdescribes.length_centroids ▸ hcluster)
  · intro isSettled iteration
    have hclustered : task.Clustered (rangePartition task.count (batchCount concurrency) 1)
        (task.nearest (task.resumed found.communities found.centroids).centroids)
        (task.resumed found.communities found.centroids) := by
      rw [hresumed]
      exact ⟨h.community_lt, h.communities_eq, h.centroids_eq⟩
    have hfits : (task.resumed found.communities found.centroids).Fits task := by
      rw [hresumed]
      exact ⟨hworld.points_eq, hworld.size_communities, hworld.size_centroids⟩
    exact hclustered.exists_sweep_again hvalid hfits isSettled iteration

/-! ## Runs -/

/-- A run around some centroids ends because no node has changed its cluster. -/
def EndsUnchanged (task : ClusterTask R) (centroids : Array R) (stops isSettled : Nat → Bool)
    (concurrency : Nat) (isTerminated : Bool) : Prop :=
  (ClusterStep.computation task.dimension isSettled).EndsUnchanged stops
    (task.steps concurrency centroids)
    ⟨task.points, .replicate task.count none, centroids, isTerminated⟩

variable {stops isSettled : Nat → Bool} {concurrency : Nat} {isTerminated : Bool}
variable {centroids : Array R} {found : Clustering R}

theorem exists_found_of_run
    (h : task.run centroids stops isSettled concurrency isTerminated = .ok found) :
    let ended := (ClusterStep.computation task.dimension isSettled).run stops
      (task.steps concurrency centroids)
      ⟨task.points, .replicate task.count none, centroids, isTerminated⟩
    ∃ outcome, ended.result = .ok outcome ∧ task.found ended.world outcome = .ok found := by
  obtain ⟨outcome, houtcome, hfound⟩ := exists_of_bind_eq_ok h
  exact ⟨outcome, eq_ok_of_mapError_eq_ok houtcome, eq_ok_of_mapError_eq_ok hfound⟩

/-- A run that ends without a change has converged to a fixed point. -/
theorem EndsUnchanged.isFixedPoint
    (h : task.EndsUnchanged centroids stops isSettled concurrency isTerminated)
    (hvalid : task.Valid) (hcount : 0 < task.count)
    (hcentroids : centroids.size = task.k * task.dimension)
    (hrun : task.run centroids stops isSettled concurrency isTerminated = .ok found) :
    found.outcome.didConverge = true ∧
      task.IsFixedPoint concurrency found.communities found.centroids := by
  obtain ⟨outcome, houtcome, hfound⟩ := exists_found_of_run hrun
  obtain ⟨⟨iterations, hresult⟩, hworld, hclustered⟩ :=
    clustered_nearest_of_endsUnchanged hvalid hcount (flatMap_rangePartition _ _ _)
      (reached_start hcentroids concurrency isTerminated) h
  obtain rfl := Except.ok.inj (houtcome.symm.trans hresult)
  exact ⟨congrArg Outcome.didConverge (eq_of_found hfound hvalid hworld).1,
    hclustered.isFixedPoint hvalid hworld hfound⟩

/-- A run that settles with no number of changes converges without a change only. -/
theorem endsUnchanged_of_run (hvalid : task.Valid)
    (hcentroids : centroids.size = task.k * task.dimension)
    (hsettled : ∀ swaps, 0 < swaps → swaps ≤ task.count → isSettled swaps = false)
    (hrun : task.run centroids stops isSettled concurrency isTerminated = .ok found)
    (hconverged : found.outcome.didConverge = true) :
    task.EndsUnchanged centroids stops isSettled concurrency isTerminated := by
  obtain ⟨outcome, houtcome, hfound⟩ := exists_found_of_run hrun
  obtain ⟨communities, _, hrest⟩ := exists_of_bind_eq_ok hfound
  obtain ⟨distances, _, hrest⟩ := exists_of_bind_eq_ok hrest
  obtain ⟨rows, _, hrest⟩ := exists_of_bind_eq_ok hrest
  obtain rfl := Except.ok.inj hrest
  exact endsUnchanged_of_didConverge hvalid (flatMap_rangePartition _ _ _)
    (reached_start hcentroids concurrency isTerminated) hsettled houtcome hconverged

end ClusterTask

namespace KMeans

variable {kmeans after : KMeans} {sampler : Sampler}

/-- A run ends because no node has changed its cluster. -/
def EndsUnchanged (kmeans : KMeans) (sampler : Sampler) : Prop :=
  ∃ task centroids, kmeans.task = .ok task ∧
    firstCentroids task (sampler kmeans.seed kmeans.view.nodeCount kmeans.k) = .ok centroids ∧
    task.EndsUnchanged centroids (kmeans.maxIterations ≤ ·)
      (isSettled kmeans.deltaThreshold kmeans.view.nodeCount) kmeans.concurrency
      kmeans.isTerminated

/-- A run that succeeds has read the points of all nodes, and has run from a sample of them. -/
theorem exists_run_of_clustering (hview : kmeans.view.NodesComplete) (hk : 0 < kmeans.k)
    (hsampler : ∀ n k, k ≤ n → Sample.Valid (sampler kmeans.seed n k) n k)
    {found : Clustering Float} (h : kmeans.clustering sampler = .ok found) :
    ∃ task centroids, kmeans.task = .ok task ∧
      firstCentroids task (sampler kmeans.seed kmeans.view.nodeCount kmeans.k) = .ok centroids ∧
      kmeans.Poses task ∧ task.Valid ∧ 0 < task.count ∧
      centroids.size = task.k * task.dimension ∧
      task.run centroids (kmeans.maxIterations ≤ ·)
        (isSettled kmeans.deltaThreshold kmeans.view.nodeCount) kmeans.concurrency
        kmeans.isTerminated = .ok found := by
  unfold clustering at h
  dsimp only at h
  split_ifs at h with hfew
  · exact nomatch h
  obtain ⟨task, htask, hrest⟩ := exists_of_bind_eq_ok h
  obtain ⟨centroids, hcentroids, hrun⟩ := exists_of_bind_eq_ok hrest
  replace hcentroids := eq_ok_of_mapError_eq_ok hcentroids
  have hposes := (faultless_task hview).2 task htask
  obtain ⟨hvalid, hcount, sampled, hsampled, hsize⟩ :=
    hposes.exists_firstCentroids hk (Nat.le_of_not_lt hfew) hsampler
  obtain rfl : centroids = sampled := Except.ok.inj (hcentroids.symm.trans hsampled)
  exact ⟨task, centroids, htask, hcentroids, hposes, hvalid, hcount, hsize, hrun⟩

end KMeans

/-- Every view that can be obtained has the data of its nodes. On such a view a run that ends
because no node has changed its cluster has converged to a fixed point, where all nodes are in the
clusters of the first of their nearest centroids. With a threshold of zero, a run converges in this
way only. -/
theorem unchanged_clusters_are_a_fixed_point {kmeans after : KMeans} {sampler : Sampler}
    (hk : 0 < kmeans.k)
    (hsampler : ∀ n k, k ≤ n → Sample.Valid (sampler kmeans.seed n k) n k)
    (hafter : kmeans.runWith sampler = (after, .ok ())) :
    (kmeans.view.Obtained → kmeans.view.NodesComplete) ∧
      (kmeans.view.NodesComplete →
        (kmeans.EndsUnchanged sampler → after.didConverge = true ∧
          (∃ task, kmeans.task = .ok task ∧ kmeans.Poses task ∧
            task.IsFixedPoint kmeans.concurrency after.communities after.centroids) ∧
          ∀ node < kmeans.view.nodeCount,
            IsFirstNearest after.centroids (kmeans.point node) (after.community node)) ∧
        (kmeans.deltaThreshold == 0.0 → kmeans.view.nodeCount < UInt64.size →
          after.didConverge = true → kmeans.EndsUnchanged sampler)) := by
  refine ⟨View.Obtained.nodesComplete, fun hview ↦ ?_⟩
  unfold KMeans.runWith at hafter
  cases hclustering : kmeans.clustering sampler with
  | error error =>
    rw [hclustering] at hafter
    exact nomatch (Prod.mk.inj hafter).2
  | ok found =>
    rw [hclustering] at hafter
    obtain ⟨rfl, _⟩ := Prod.mk.inj hafter
    obtain ⟨task, centroids, htask, hcentroids, hposes, hvalid, hcount, hsize, hrun⟩ :=
      KMeans.exists_run_of_clustering hview hk hsampler hclustering
    constructor
    · rintro ⟨again, first, hagain, hfirst, hends⟩
      obtain rfl : task = again := Except.ok.inj (htask.symm.trans hagain)
      obtain rfl : centroids = first := Except.ok.inj (hcentroids.symm.trans hfirst)
      obtain ⟨hconverged, hfixed⟩ := hends.isFixedPoint hvalid hcount hsize hrun
      refine ⟨hconverged, ⟨task, htask, hposes, hfixed⟩, fun node hnode ↦ ?_⟩
      rw [← hposes.count_eq] at hnode
      rw [KMeans.community, hfixed.getD_communities hnode, hposes.point_eq node hnode]
      exact isFirstNearest_nearestCluster _ _
    · intro hthreshold hnodes hconverged
      refine ⟨task, centroids, htask, hcentroids, ClusterTask.endsUnchanged_of_run hvalid hsize
        (fun swaps hswaps hle ↦ ?_) hrun hconverged⟩
      exact KMeans.isSettled_eq_false hthreshold hswaps (hposes.count_eq ▸ hle) hnodes

/-- With a threshold of zero, the two clusters of three points on a line are a fixed point. -/
theorem unchanged_clusters_of_three_on_a_line :
    let kmeans := { threeOnALine with deltaThreshold := 0.0 }
    let run := kmeans.runWith Sample.ofSeed
    run.2 = .ok () ∧ kmeans.EndsUnchanged Sample.ofSeed ∧
      ∃ task, kmeans.task = .ok task ∧ kmeans.Poses task ∧
        task.IsFixedPoint kmeans.concurrency run.1.communities run.1.centroids := by
  intro kmeans run
  have hsuccess : run.2 = .ok () := by decide +kernel
  have hconverged : run.1.didConverge = true := by decide +kernel
  have hrun : kmeans.runWith Sample.ofSeed = (run.1, .ok ()) := Prod.ext rfl hsuccess
  obtain ⟨hcomplete, hunchanged⟩ := unchanged_clusters_are_a_fixed_point (by decide)
    (fun _ _ hk ↦ Sample.valid_ofSeed _ hk) hrun
  have hfixed := hunchanged (hcomplete obtained_threeOnALine)
  have hends := hfixed.2 (by decide +kernel) (by decide) hconverged
  exact ⟨hsuccess, hends, (hfixed.1 hends).2.1⟩

end PackedGraph
