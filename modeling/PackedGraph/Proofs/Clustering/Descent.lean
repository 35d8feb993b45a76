import Mathlib
import PackedGraph.Proofs.Clustering.LeastSquares

/-!
# Iterations of k-means only improve the clusters

In exact arithmetic, the sum of the squared distances of all nodes from the centroids of their
clusters does not grow from one barrier to the next. It does not grow when every node goes to its
nearest centroid, and it does not grow when the centroids are moved to the means of their nodes. A
centroid without nodes stays where it is, and no distance is taken from it.
-/

namespace PackedGraph

/-- The cluster of a node, once there is one. -/
def ClusterWorld.cluster {R : Type} (world : ClusterWorld R) (node : Nat) : Nat :=
  (world.communities.getD node none).getD 0

namespace ClusterTask

/-- The sum of the squared distances of the nodes from the centroids of some clusters. -/
def cost (task : ClusterTask ℚ) (centroids : Array ℚ) (community : Nat → Nat) : ℚ :=
  ∑ node ∈ Finset.range task.count,
    (task.point node).squaredDistance (Slices.row centroids task.dimension (community node))

/-- The sum of the squared distances of the nodes from the centroids of their clusters. -/
def spread (task : ClusterTask ℚ) (world : ClusterWorld ℚ) : ℚ :=
  task.cost world.centroids world.cluster

variable {task : ClusterTask ℚ} {centroids moved : Array ℚ} {community other : Nat → Nat}
variable {ranges : List NodeRange} {cluster : Nat}

/-! ## Assigning and moving -/

theorem cost_congr (h : ∀ node < task.count, community node = other node) :
    task.cost centroids community = task.cost centroids other := by
  apply Finset.sum_congr rfl
  intro node hnode
  rw [h node (Finset.mem_range.mp hnode)]

/-- No assignment is better than that to the nearest centroids. -/
theorem cost_nearest_le (hvalid : task.Valid) (hlt : ∀ node < task.count, community node < task.k) :
    task.cost centroids (task.nearest centroids) ≤ task.cost centroids community := by
  apply Finset.sum_le_sum
  intro node hnode
  have hne : (List.range task.k).map (Slices.row centroids task.dimension) ≠ [] := by
    simpa using hvalid.k_pos.ne'
  obtain ⟨centroid, hplace, hclosest⟩ := exists_nearestCluster hne (task.point node)
  have hnearest : centroid =
      Slices.row centroids task.dimension (task.nearest centroids node) := by
    replace hplace : ((List.range task.k).map (Slices.row centroids task.dimension))[
      task.nearest centroids node]? = some centroid := hplace
    rw [List.getElem?_map, List.getElem?_range (hvalid.nearest_lt centroids node)] at hplace
    exact (Option.some.inj hplace).symm
  rw [← hnearest]
  apply hclosest
  exact List.mem_map_of_mem (List.mem_range.mpr (hlt node (Finset.mem_range.mp hnode)))

theorem sum_squaredDistance_eq (hvalid : task.Valid)
    (hsize : centroids.size = task.k * task.dimension) (hcluster : cluster < task.k) :
    ∑ node ∈ clusterNodes community task.count cluster,
        (task.point node).squaredDistance (Slices.row centroids task.dimension cluster) =
      ∑ d ∈ Finset.range task.dimension, ∑ node ∈ clusterNodes community task.count cluster,
        ((task.point node).getD d 0 -
          (Slices.row centroids task.dimension cluster).getD d 0) ^ 2 := by
  rw [Finset.sum_comm]
  apply Finset.sum_congr rfl
  intro node hnode
  have hlt : node < task.count := Finset.mem_range.mp (Finset.mem_filter.mp hnode).1
  exact Point.squaredDistance_eq (Slices.length_row hvalid.size_points hlt)
    (Slices.length_row hsize hcluster)

/-- The mean is the best place for the centroid of a cluster. -/
theorem sum_squaredDistance_mean_le (hvalid : task.Valid)
    (hsize : centroids.size = task.k * task.dimension)
    (hmoved : moved.size = task.k * task.dimension) (hcluster : cluster < task.k)
    (hmean : ∀ d < task.dimension, moved[cluster * task.dimension + d]? =
      some (mean (clusterNodes community task.count cluster) fun node ↦
        (task.point node).getD d 0)) :
    ∑ node ∈ clusterNodes community task.count cluster,
        (task.point node).squaredDistance (Slices.row moved task.dimension cluster) ≤
      ∑ node ∈ clusterNodes community task.count cluster,
        (task.point node).squaredDistance (Slices.row centroids task.dimension cluster) := by
  rw [sum_squaredDistance_eq hvalid hmoved hcluster, sum_squaredDistance_eq hvalid hsize hcluster]
  apply Finset.sum_le_sum
  intro d hd
  replace hd : d < task.dimension := Finset.mem_range.mp hd
  have hcoordinate : (Slices.row moved task.dimension cluster).getD d 0 =
      mean (clusterNodes community task.count cluster) fun node ↦ (task.point node).getD d 0 := by
    rw [List.getD_eq_getElem?_getD, Slices.getElem?_row hd, hmean d hd, Option.getD_some]
  rw [hcoordinate]
  exact sum_sq_sub_mean_le _ _ _

/-- The cost is the sum of the costs of the clusters. -/
theorem cost_eq_sum_clusters (hlt : ∀ node < task.count, community node < task.k) :
    task.cost centroids community =
      ∑ cluster ∈ Finset.range task.k, ∑ node ∈ clusterNodes community task.count cluster,
        (task.point node).squaredDistance (Slices.row centroids task.dimension cluster) := by
  have hmaps : ∀ node ∈ Finset.range task.count, community node ∈ Finset.range task.k := by
    intro node hnode
    exact Finset.mem_range.mpr (hlt node (Finset.mem_range.mp hnode))
  rw [cost, ← Finset.sum_fiberwise_of_maps_to hmaps]
  apply Finset.sum_congr rfl
  intro cluster _
  apply Finset.sum_congr rfl
  intro node hnode
  rw [(Finset.mem_filter.mp hnode).2]

/-- Moving the centroids of all clusters with nodes to their means does not make them worse. -/
theorem cost_moved_le (hvalid : task.Valid) (hsize : centroids.size = task.k * task.dimension)
    (hnodes : (ranges.flatMap NodeRange.nodes).Perm (List.range task.count))
    (hlt : ∀ node < task.count, community node < task.k)
    (hmoves : ClusterStep.Moves task community ranges (fun c _ ↦ c < task.k ∧
      members community c (ranges.flatMap NodeRange.nodes) ≠ []) centroids moved) :
    task.cost moved community ≤ task.cost centroids community := by
  rw [cost_eq_sum_clusters hlt, cost_eq_sum_clusters hlt]
  apply Finset.sum_le_sum
  intro cluster hcluster
  replace hcluster : cluster < task.k := Finset.mem_range.mp hcluster
  by_cases hempty : members community cluster (ranges.flatMap NodeRange.nodes) = []
  · -- The centroid stays where it is, but no node is measured by it anyway.
    rw [(members_eq_nil_iff hnodes).mp hempty, Finset.sum_empty, Finset.sum_empty]
  · apply sum_squaredDistance_mean_le hvalid hsize (hmoves.size_eq.trans hsize) hcluster
    intro d hd
    rw [hmoves.new_eq cluster d hd ⟨hcluster, hempty⟩, clusterMean_eq_mean hnodes hempty]

/-! ## Iterations -/

/-- The steps and the world before an iteration. The ranges of the steps are a partition of the
nodes, and all nodes have a cluster after the first iteration. -/
structure Underway (task : ClusterTask ℚ) (completed : Nat) (steps : List (ClusterStep ℚ))
    (world : ClusterWorld ℚ) : Prop where
  nodes_perm : (steps.flatMap (·.range.nodes)).Perm (List.range task.count)
  steps_fit : ∀ step ∈ steps, step.Fits task ∧ step.centroids = world.centroids
  world_fits : world.Fits task
  assigned : completed ≠ 0 → ∀ node < task.count, ∃ cluster < task.k,
    world.communities[node]? = some (some cluster)

variable {steps : List (ClusterStep ℚ)} {world final : ClusterWorld ℚ}
variable {completed : Nat} {isSettled : Nat → Bool}

theorem cluster_eq {node : Nat} (h : world.communities[node]? = some (some cluster)) :
    world.cluster node = cluster := by
  rw [ClusterWorld.cluster, Array.getD_eq_getD_getElem?, h]
  rfl

theorem underway_start {start : Array ℚ} (hstart : start.size = task.k * task.dimension)
    (concurrency : Nat) (isTerminated : Bool) :
    task.Underway 0 (task.steps concurrency start)
      ⟨task.points, .replicate task.count none, start, isTerminated⟩ := by
  constructor
  · rw [← List.flatMap_map, map_range_steps, flatMap_rangePartition]
  · exact fun step hstep ↦ fits_of_mem_steps hstart hstep
  · exact ⟨rfl, Array.size_replicate, hstart⟩
  · exact fun hzero ↦ absurd rfl hzero

/-- What an iteration and the barrier after it have done. -/
structure Improves (task : ClusterTask ℚ) (world final : ClusterWorld ℚ) : Prop where
  communities_eq : ∀ node < task.count,
    final.communities[node]? = some (some (task.nearest world.centroids node))
  moves : ∃ ranges : List NodeRange, (ranges.flatMap NodeRange.nodes).Perm (List.range task.count) ∧
    ClusterStep.Moves task (task.nearest world.centroids) ranges (fun c _ ↦ c < task.k ∧
      members (task.nearest world.centroids) c (ranges.flatMap NodeRange.nodes) ≠ [])
      world.centroids final.centroids

/-- Neither the iteration nor the barrier fails. -/
theorem Underway.exists_next (h : task.Underway completed steps world) (hvalid : task.Valid)
    (isSettled : Nat → Bool) :
    ∃ swept later changed after final verdict,
      (ClusterStep.computation task.dimension isSettled).sweep completed steps world =
        (swept, later, .ok changed) ∧
      (ClusterStep.computation task.dimension isSettled).barrier (completed + 1) swept later =
        (after, final, .ok verdict) ∧
      task.Underway (completed + 1) after final ∧ task.Improves world final := by
  have hnodup : (steps.flatMap (·.range.nodes)).Nodup := h.nodes_perm.nodup_iff.mpr List.nodup_range
  have hlt : ∀ node ∈ steps.flatMap (·.range.nodes), node < task.count :=
    fun node hnode ↦ List.mem_range.mp (h.nodes_perm.mem_iff.mp hnode)
  obtain ⟨swept, later, hsweep, hswept⟩ := ClusterStep.exists_sweep hvalid h.steps_fit h.world_fits
    hlt hnodup isSettled completed
  have hlater : later.Fits task := hswept.world_fits h.world_fits
  have htallied : ∀ step ∈ swept, step.Fits task ∧
      step.Tallies task (task.nearest world.centroids) step.range.nodes :=
    fun step hstep ↦ ⟨(hswept.steps_fit step hstep).1, hswept.tallies step hstep⟩
  obtain ⟨after, moved, hbarrier, hranges, hafter, hmoves⟩ :=
    ClusterStep.exists_barrier hvalid htallied hlater isSettled (completed + 1)
  have hnodes : ((swept.map ClusterStep.range).flatMap NodeRange.nodes).Perm
      (List.range task.count) := by
    rw [hswept.ranges_eq, List.flatMap_map]
    exact h.nodes_perm
  have hcommunities : ∀ node < task.count,
      later.communities[node]? = some (some (task.nearest world.centroids node)) := by
    intro node hnode
    rw [hswept.communities_eq, if_pos (h.nodes_perm.mem_iff.mpr (List.mem_range.mpr hnode))]
  have hcentroids : later.centroids = world.centroids := by rw [hswept.world_eq]
  rw [hcentroids] at hmoves
  refine ⟨swept, later, _, after, _, _, hsweep, hbarrier, ?_, hcommunities, _, hnodes, hmoves⟩
  constructor
  · rw [← List.flatMap_map, hranges]
    exact hnodes
  · exact hafter
  · exact ⟨hlater.points_eq, hlater.size_communities,
      hmoves.size_eq.trans h.world_fits.size_centroids⟩
  · exact fun _ node hnode ↦ ⟨_, hvalid.nearest_lt world.centroids node, hcommunities node hnode⟩

theorem Improves.spread_le (h : task.Improves world final) (hvalid : task.Valid)
    (hworld : world.Fits task) (hassigned : ∀ node < task.count, ∃ cluster < task.k,
      world.communities[node]? = some (some cluster)) :
    task.spread final ≤ task.spread world := by
  obtain ⟨ranges, hnodes, hmoves⟩ := h.moves
  have hnearest : ∀ node < task.count, task.nearest world.centroids node < task.k :=
    fun node _ ↦ hvalid.nearest_lt world.centroids node
  have hcluster : ∀ node < task.count, world.cluster node < task.k := by
    intro node hnode
    obtain ⟨cluster, hlt, hcommunity⟩ := hassigned node hnode
    rwa [cluster_eq hcommunity]
  calc
    task.spread final = task.cost final.centroids (task.nearest world.centroids) :=
      cost_congr fun node hnode ↦ cluster_eq (h.communities_eq node hnode)
    _ ≤ task.cost world.centroids (task.nearest world.centroids) :=
      cost_moved_le hvalid hworld.size_centroids hnodes hnearest hmoves
    _ ≤ task.spread world := cost_nearest_le hvalid hcluster

theorem row_congr (hmoved : moved.size = task.k * task.dimension)
    (hsize : centroids.size = task.k * task.dimension) (hcluster : cluster < task.k)
    (hcells : ∀ d < task.dimension, moved[cluster * task.dimension + d]? =
      centroids[cluster * task.dimension + d]?) :
    Slices.row moved task.dimension cluster = Slices.row centroids task.dimension cluster := by
  apply List.ext_getElem?
  intro d
  by_cases hd : d < task.dimension
  · rw [Slices.getElem?_row hd, Slices.getElem?_row hd, hcells d hd]
  · have hlength : task.dimension ≤ d := Nat.le_of_not_lt hd
    rw [List.getElem?_eq_none ((Slices.length_row hmoved hcluster).trans_le hlength),
      List.getElem?_eq_none ((Slices.length_row hsize hcluster).trans_le hlength)]

/-- A centroid without nodes stays where it is. -/
theorem Improves.row_eq (h : task.Improves world final) (hworld : world.Fits task)
    (hcluster : cluster < task.k) (hnone : ∀ node < task.count, final.cluster node ≠ cluster) :
    Slices.row final.centroids task.dimension cluster =
      Slices.row world.centroids task.dimension cluster := by
  obtain ⟨ranges, hnodes, hmoves⟩ := h.moves
  have hempty : members (task.nearest world.centroids) cluster
      (ranges.flatMap NodeRange.nodes) = [] := by
    apply (members_eq_nil_iff hnodes).mpr
    apply Finset.filter_eq_empty_iff.mpr
    intro node hnode
    replace hnode : node < task.count := Finset.mem_range.mp hnode
    rw [← cluster_eq (h.communities_eq node hnode)]
    exact hnone node hnode
  have hsize : final.centroids.size = task.k * task.dimension :=
    hmoves.size_eq.trans hworld.size_centroids
  apply row_congr hsize hworld.size_centroids hcluster
  intro d hd
  exact hmoves.old_eq cluster d hd fun hcell ↦ hcell.2 hempty

theorem underway_of_reaches (hvalid : task.Valid) (hstart : task.Underway 0 steps world)
    {now : List (ClusterStep ℚ)} {between : ClusterWorld ℚ}
    (hreaches : (ClusterStep.computation task.dimension isSettled).Reaches steps world completed
      now between) : task.Underway completed now between := by
  induction hreaches with
  | start => exact hstart
  | @next completed now after between final _ hproceeds ih =>
    obtain ⟨swept, later, hsweep, hbarrier⟩ := hproceeds
    obtain ⟨_, _, _, _, _, _, hagain, hmoved, hnext, _⟩ := ih.exists_next hvalid isSettled
    obtain ⟨rfl, hworld⟩ := Prod.mk.inj (hsweep.symm.trans hagain)
    obtain ⟨rfl, _⟩ := Prod.mk.inj hworld
    obtain ⟨rfl, hfinal⟩ := Prod.mk.inj (hbarrier.symm.trans hmoved)
    obtain ⟨rfl, _⟩ := Prod.mk.inj hfinal
    exact hnext

end ClusterTask

/-- In exact arithmetic, no iteration of k-means makes the clusters worse. Whatever the points, the
first centroids and the partition in steps are, no step and no barrier fails, every node is in a
cluster at each barrier, and a centroid without nodes stays where it is. The sum of the squared
distances of all nodes from the centroids of their clusters is at most what it was after the barrier
before. -/
theorem iterations_never_worsen_clusters {task : ClusterTask ℚ} (hvalid : task.Valid)
    {steps : List (ClusterStep ℚ)} {world : ClusterWorld ℚ} (hstart : task.Underway 0 steps world)
    (isSettled : Nat → Bool) (completed : Nat) (now : List (ClusterStep ℚ))
    (between : ClusterWorld ℚ)
    (hreaches : (ClusterStep.computation task.dimension isSettled).Reaches steps world completed
      now between) :
    ∃ swept later changed after final verdict,
      (ClusterStep.computation task.dimension isSettled).sweep completed now between =
        (swept, later, .ok changed) ∧
      (ClusterStep.computation task.dimension isSettled).barrier (completed + 1) swept later =
        (after, final, .ok verdict) ∧
      (∀ node < task.count, ∃ cluster < task.k,
        final.communities[node]? = some (some cluster)) ∧
      (∀ cluster < task.k, (∀ node < task.count, final.cluster node ≠ cluster) →
        Slices.row final.centroids task.dimension cluster =
          Slices.row between.centroids task.dimension cluster) ∧
      (0 < completed → task.spread final ≤ task.spread between) := by
  have hbetween : task.Underway completed now between :=
    ClusterTask.underway_of_reaches hvalid hstart hreaches
  obtain ⟨swept, later, changed, after, final, verdict, hsweep, hbarrier, hafter, himproves⟩ :=
    hbetween.exists_next hvalid isSettled
  refine ⟨swept, later, changed, after, final, verdict, hsweep, hbarrier,
    hafter.assigned (Nat.succ_ne_zero completed),
    fun cluster hcluster ↦ himproves.row_eq hbetween.world_fits hcluster, fun hpositive ↦ ?_⟩
  exact himproves.spread_le hvalid hbetween.world_fits (hbetween.assigned hpositive.ne')

/-- Two clusters of the numbers 0, 1 and 5. -/
def threeNumbers : ClusterTask ℚ where
  count := 3
  k := 2
  dimension := 1
  points := #[0, 1, 5]

/-- Around 0 and 1, the number 1 is with 5 at first. Then it is nearer to 0 than to their mean. -/
theorem iterations_improve_clusters_of_three_numbers :
    let steps := threeNumbers.steps 1 #[0, 1]
    let world : ClusterWorld ℚ := ⟨#[0, 1, 5], .replicate 3 none, #[0, 1], false⟩
    let computation := ClusterStep.computation 1 fun _ ↦ false
    ∃ now between after final, computation.Reaches steps world 1 now between ∧
      computation.Proceeds 1 now between after final ∧
      threeNumbers.spread final ≤ threeNumbers.spread between ∧
      threeNumbers.spread between = 8 ∧ threeNumbers.spread final = 1 / 2 := by
  intro steps world computation
  have hvalid : threeNumbers.Valid := ⟨by decide, by decide, rfl⟩
  have hstart : threeNumbers.Underway 0 steps world := ClusterTask.underway_start rfl 1 false
  let swept := computation.sweep 0 steps world
  let moved := computation.barrier 1 swept.1 swept.2.1
  have hswept : swept.2.2 = .ok true := by decide +kernel
  have hmoved : moved.2.2 = .ok .proceed := by decide +kernel
  have hreaches : computation.Reaches steps world 1 moved.1 moved.2.1 :=
    .next .start ⟨swept.1, swept.2.1, hswept ▸ rfl, hmoved ▸ rfl⟩
  let again := computation.sweep 1 moved.1 moved.2.1
  let ended := computation.barrier 2 again.1 again.2.1
  have hagain : again.2.2 = .ok true := by decide +kernel
  have hended : ended.2.2 = .ok .proceed := by decide +kernel
  obtain ⟨later, beyond, changed, after, final, verdict, hsweep, hbarrier, _, _, hspread⟩ :=
    iterations_never_worsen_clusters hvalid hstart (fun _ ↦ false) 1 moved.1 moved.2.1 hreaches
  obtain rfl : again.1 = later := congrArg (·.1) hsweep
  obtain rfl : again.2.1 = beyond := congrArg (·.2.1) hsweep
  obtain rfl : ended.2.1 = final := congrArg (·.2.1) hbarrier
  refine ⟨moved.1, moved.2.1, ended.1, ended.2.1, hreaches,
    ⟨again.1, again.2.1, hagain ▸ rfl, hended ▸ rfl⟩, hspread Nat.one_pos, ?_, ?_⟩
  · decide +kernel
  · decide +kernel

end PackedGraph
