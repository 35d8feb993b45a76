import Mathlib
import PackedGraph.Proofs.Clustering.Assignment

/-!
# Means of clusters

The barrier moves the centroid of each cluster with nodes to the mean of their points, where the
sums of the ranges are added up in the order of the ranges, and leaves the other centroids where
they are. It is no fault either if the arrays fit the number of clusters.
-/

namespace PackedGraph

variable {R : Type} [Scalar R]

/-- A coordinate of the mean of the points of a cluster, which are added up range by range. -/
def clusterMean (point : Nat → Point R) (community : Nat → Nat) (ranges : List NodeRange)
    (cluster d : Nat) : R :=
  let parts := ranges.map fun range ↦
    coordinateSum point d (members community cluster range.nodes)
  let size := (members community cluster (ranges.flatMap NodeRange.nodes)).length
  Scalar.div (Scalar.total parts) (Scalar.ofNat size)

/-- The mean depends on the points and clusters of the nodes in the ranges only. -/
theorem clusterMean_congr {point point' : Nat → Point R} {community community' : Nat → Nat}
    {ranges : List NodeRange}
    (hpoint : ∀ node ∈ ranges.flatMap NodeRange.nodes, point node = point' node)
    (hcommunity : ∀ node ∈ ranges.flatMap NodeRange.nodes, community node = community' node) :
    clusterMean point community ranges = clusterMean point' community' ranges := by
  have hsum (cluster d : Nat) : ∀ range ∈ ranges,
      coordinateSum point d (members community cluster range.nodes) =
        coordinateSum point' d (members community' cluster range.nodes) := by
    intro range hrange
    have hnodes : ∀ node ∈ range.nodes, node ∈ ranges.flatMap NodeRange.nodes :=
      fun node hnode ↦ List.mem_flatMap.mpr ⟨range, hrange, hnode⟩
    rw [← members_congr (fun node hnode ↦ hcommunity node (hnodes node hnode)) cluster]
    refine List.foldl_ext _ _ _ fun sum node hnode ↦ ?_
    rw [hpoint node (hnodes node (List.mem_filter.mp hnode).1)]
  funext cluster d
  rw [clusterMean, clusterMean, List.map_congr_left (hsum cluster d),
    members_congr hcommunity cluster]

theorem length_members_flatMap (community : Nat → Nat) (cluster : Nat) (ranges : List NodeRange) :
    (members community cluster (ranges.flatMap NodeRange.nodes)).length =
      (ranges.map fun range ↦ (members community cluster range.nodes).length).sum := by
  rw [members, List.filter_flatMap, List.length_flatMap]
  rfl

namespace ClusterStep

variable {task : ClusterTask R} {community : Nat → Nat} {steps : List (ClusterStep R)}
variable {centroids : Array R} {cluster : Nat}

/-- Some cells of the centroids are replaced by coordinates of the means. -/
abbrev Moves (task : ClusterTask R) (community : Nat → Nat) (ranges : List NodeRange) :
    (cells : Nat → Nat → Prop) → (centroids after : Array R) → Prop :=
  Slices.Patches task.dimension (clusterMean task.point community ranges)

theorem exists_moveCoordinate
    (htallies : ∀ step ∈ steps, step.Tallies task community step.range.nodes)
    (hsize : centroids.size = task.k * task.dimension) (hcluster : cluster < task.k) {d : Nat}
    (hd : d < task.dimension) {size : Nat}
    (htotal : size = (members community cluster
      ((steps.map range).flatMap NodeRange.nodes)).length) :
    ∃ after, moveCoordinate steps size (cluster * task.dimension + d) centroids = .ok after ∧
      Moves task community (steps.map range) (fun c e ↦ c = cluster ∧ e = d) centroids after := by
  have hsums : (steps.mapM fun step ↦ Column.element step.sums (cluster * task.dimension + d)) =
      .ok (steps.map fun step ↦
        coordinateSum task.point d (members community cluster step.range.nodes)) :=
    mapM_eq_ok fun step hstep ↦
      Column.element_eq ((htallies step hstep).sums_eq cluster hcluster d hd)
  have hcell : cluster * task.dimension + d < centroids.size := hsize ▸ Slices.cell_lt hcluster hd
  have hmean : Scalar.div (Scalar.total (steps.map fun step ↦
      coordinateSum task.point d (members community cluster step.range.nodes)))
      (Scalar.ofNat size) = clusterMean task.point community (steps.map range) cluster d := by
    rw [clusterMean, List.map_map, htotal]
    rfl
  rw [moveCoordinate, hsums, ok_bind, Column.replace_eq hcell, hmean]
  exact ⟨_, rfl, .setIfInBounds hd hcell⟩

/-- A centroid is moved to the mean of its cluster, unless the cluster is empty. -/
theorem exists_moveCentroid
    (htallies : ∀ step ∈ steps, step.Tallies task community step.range.nodes)
    (hsize : centroids.size = task.k * task.dimension) (hcluster : cluster < task.k) :
    ∃ after, moveCentroid steps task.dimension centroids cluster = .ok after ∧
      Moves task community (steps.map range) (fun c _ ↦ c = cluster ∧
        members community c ((steps.map range).flatMap NodeRange.nodes) ≠ []) centroids after := by
  have hsizes : (steps.mapM fun step ↦ Column.element step.sizes cluster) =
      .ok (steps.map fun step ↦ (members community cluster step.range.nodes).length) :=
    mapM_eq_ok fun step hstep ↦ Column.element_eq ((htallies step hstep).sizes_eq cluster hcluster)
  have htotal : (steps.map fun step ↦ (members community cluster step.range.nodes).length).sum =
      (members community cluster ((steps.map range).flatMap NodeRange.nodes)).length := by
    rw [length_members_flatMap, List.map_map]
    rfl
  rw [moveCentroid, hsizes, ok_bind]
  simp only [← List.sum_eq_foldl, htotal, List.length_eq_zero_iff]
  by_cases hempty : members community cluster ((steps.map range).flatMap NodeRange.nodes) = []
  · rw [if_pos hempty]
    exact ⟨centroids, rfl, .none centroids fun c d h ↦ h.2 (h.1 ▸ hempty)⟩
  rw [if_neg hempty]
  obtain ⟨after, hafter, hmoves⟩ := exists_foldlM_eq_ok (l := List.range task.dimension)
    (motive := fun done moved ↦ Moves task community (steps.map range)
      (fun c d ↦ c = cluster ∧ d ∈ done) centroids moved)
    (.none centroids fun c d h ↦ List.not_mem_nil h.2)
    (by
      intro done d rest moved hrange hmoved
      have hd : d < task.dimension := List.mem_range.mp (hrange ▸ by simp)
      obtain ⟨next, hnext, hcells⟩ := exists_moveCoordinate htallies
        (hmoved.size_eq.trans hsize) hcluster hd rfl
      refine ⟨next, hnext, (hmoved.trans hcells).congr fun c e _ ↦ ?_⟩
      rw [List.mem_append, List.mem_singleton, and_or_left])
  refine ⟨after, hafter, hmoves.congr fun c d hd ↦ and_congr_right ?_⟩
  rintro rfl
  exact iff_of_true (List.mem_range.mpr hd) hempty

/-- The centroids of all clusters with nodes are moved to their means. -/
theorem exists_moveCentroids (hvalid : task.Valid)
    (htallies : ∀ step ∈ steps, step.Tallies task community step.range.nodes)
    (hsize : centroids.size = task.k * task.dimension) :
    ∃ after, moveCentroids steps task.dimension centroids = .ok after ∧
      Moves task community (steps.map range) (fun c _ ↦ c < task.k ∧
        members community c ((steps.map range).flatMap NodeRange.nodes) ≠ []) centroids after := by
  rw [moveCentroids, hsize, Slices.quotient_eq hvalid.dimension_pos, ok_bind]
  obtain ⟨after, hafter, hmoves⟩ := exists_foldlM_eq_ok (l := List.range task.k)
    (motive := fun done moved ↦ Moves task community (steps.map range) (fun c _ ↦ c ∈ done ∧
      members community c ((steps.map range).flatMap NodeRange.nodes) ≠ []) centroids moved)
    (.none centroids fun c d h ↦ List.not_mem_nil h.1)
    (by
      intro done cluster rest moved hrange hmoved
      have hcluster : cluster < task.k := List.mem_range.mp (hrange ▸ by simp)
      obtain ⟨next, hnext, hcells⟩ :=
        exists_moveCentroid htallies (hmoved.size_eq.trans hsize) hcluster
      refine ⟨next, hnext, (hmoved.trans hcells).congr fun c d _ ↦ ?_⟩
      rw [List.mem_append, List.mem_singleton, or_and_right])
  exact ⟨after, hafter, hmoves.congr fun c d _ ↦ and_congr_left' List.mem_range⟩

/-- The barrier gives all steps the moved centroids, and halts if few enough nodes have changed
their cluster. -/
theorem exists_moved (hvalid : task.Valid)
    (hsteps : ∀ step ∈ steps, step.Fits task ∧ step.Tallies task community step.range.nodes)
    {world : ClusterWorld R} (hworld : world.Fits task) (isSettled : Nat → Bool)
    (completed : Nat) :
    ∃ moved, (computation task.dimension isSettled).barrier completed steps world =
        (steps.map fun step ↦ { step with centroids := moved }, { world with centroids := moved },
          .ok (if isSettled (steps.map swaps).sum then .halt else .proceed)) ∧
      moved.size = task.k * task.dimension ∧
      Moves task community (steps.map range) (fun c _ ↦ c < task.k ∧
        members community c ((steps.map range).flatMap NodeRange.nodes) ≠ [])
        world.centroids moved := by
  obtain ⟨moved, hmoved, hmoves⟩ := exists_moveCentroids hvalid
    (fun step hstep ↦ (hsteps step hstep).2) hworld.size_centroids
  have hsize : moved.size = task.k * task.dimension := hmoves.size_eq.trans hworld.size_centroids
  have hcopied : (steps.mapM fun step ↦ step.setCentroids moved) =
      .ok (steps.map fun step ↦ { step with centroids := moved }) := by
    refine mapM_eq_ok fun step hstep ↦ ?_
    rw [setCentroids, Slices.copy_all (hsize.trans (hsteps step hstep).1.size_centroids.symm)]
    rfl
  refine ⟨moved, ?_, hsize, hmoves⟩
  simp only [computation, ← List.sum_eq_foldl, hmoved, hcopied, ok_bind]
  rfl

omit [Scalar R] in
theorem Fits.setCentroids {step : ClusterStep R} (h : step.Fits task)
    (hsize : centroids.size = task.k * task.dimension) :
    { step with centroids }.Fits task :=
  ⟨h.dimension_eq, hsize, h.size_sums, h.size_sizes⟩

theorem exists_barrier (hvalid : task.Valid)
    (hsteps : ∀ step ∈ steps, step.Fits task ∧ step.Tallies task community step.range.nodes)
    {world : ClusterWorld R} (hworld : world.Fits task) (isSettled : Nat → Bool)
    (completed : Nat) :
    ∃ after moved, (computation task.dimension isSettled).barrier completed steps world =
        (after, { world with centroids := moved },
          .ok (if isSettled (steps.map swaps).sum then .halt else .proceed)) ∧
      after.map range = steps.map range ∧
      (∀ step ∈ after, step.Fits task ∧ step.centroids = moved) ∧
      Moves task community (steps.map range) (fun c _ ↦ c < task.k ∧
        members community c ((steps.map range).flatMap NodeRange.nodes) ≠ [])
        world.centroids moved := by
  obtain ⟨moved, hbarrier, hsize, hmoves⟩ := exists_moved hvalid hsteps hworld isSettled completed
  refine ⟨_, moved, hbarrier, ?_, ?_, hmoves⟩
  · rw [List.map_map]
    rfl
  · intro step hstep
    obtain ⟨old, hold, rfl⟩ := List.mem_map.mp hstep
    exact ⟨(hsteps old hold).1.setCentroids hsize, rfl⟩

end ClusterStep

end PackedGraph
