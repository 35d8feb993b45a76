import Mathlib
import PackedGraph.Proofs.Clustering.Centroids
import PackedGraph.Proofs.Iteration.Partition

/-!
# Runs of k-means

After each iteration with a change, the centroids are the means of the clusters that the iteration
has assigned. A run that ends without a change, or halts at a barrier, or is stopped between two
iterations, ends with centroids and clusters that match, because an iteration without a change leaves
both as they are, and the first iteration always has a change.
-/

namespace PackedGraph

variable {R : Type} [Scalar R]

namespace ClusterTask

variable {task : ClusterTask R} {ranges : List NodeRange} {community : Nat → Nat}

/-- Every node has a cluster, and the centroids of clusters with nodes are their means. -/
structure Clustered (task : ClusterTask R) (ranges : List NodeRange) (community : Nat → Nat)
    (world : ClusterWorld R) : Prop where
  community_lt : ∀ node < task.count, community node < task.k
  communities_eq : ∀ node < task.count, world.communities[node]? = some (some (community node))
  centroids_eq : ∀ c < task.k, members community c (ranges.flatMap NodeRange.nodes) ≠ [] →
    ∀ d < task.dimension,
      world.centroids[c * task.dimension + d]? = some (clusterMean task.point community ranges c d)

/-- The steps and the world after some iterations with a change. -/
structure Reached (task : ClusterTask R) (ranges : List NodeRange) (completed : Nat)
    (steps : List (ClusterStep R)) (world : ClusterWorld R) : Prop where
  ranges_eq : steps.map ClusterStep.range = ranges
  steps_fit : ∀ step ∈ steps, step.Fits task ∧ step.centroids = world.centroids
  world_fits : world.Fits task
  unassigned : completed = 0 → ∀ node < task.count, world.communities[node]? = some none
  clustered : completed ≠ 0 → ∃ community, task.Clustered ranges community world

theorem map_range_steps (task : ClusterTask R) (concurrency : Nat) (centroids : Array R) :
    (task.steps concurrency centroids).map ClusterStep.range =
      rangePartition task.count (batchCount concurrency) 1 := by
  simp [steps, Function.comp_def]

theorem fits_of_mem_steps {concurrency : Nat} {centroids : Array R}
    (hcentroids : centroids.size = task.k * task.dimension) {step : ClusterStep R}
    (hstep : step ∈ task.steps concurrency centroids) :
    step.Fits task ∧ step.centroids = centroids := by
  obtain ⟨range, _, rfl⟩ := List.mem_map.mp hstep
  exact ⟨⟨rfl, hcentroids, Array.size_replicate, Array.size_replicate⟩, rfl⟩

/-- A run starts without clusters. -/
theorem reached_start {centroids : Array R} (hcentroids : centroids.size = task.k * task.dimension)
    (concurrency : Nat) (isTerminated : Bool) :
    task.Reached (rangePartition task.count (batchCount concurrency) 1) 0
      (task.steps concurrency centroids)
      ⟨task.points, .replicate task.count none, centroids, isTerminated⟩ where
  ranges_eq := map_range_steps task concurrency centroids
  steps_fit _ hstep := fits_of_mem_steps hcentroids hstep
  world_fits := ⟨rfl, Array.size_replicate, hcentroids⟩
  unassigned _ node hnode := by rw [Array.getElem?_replicate, if_pos hnode]
  clustered h := absurd rfl h

section Runs

variable {completed : Nat} {steps swept : List (ClusterStep R)} {world later : ClusterWorld R}
variable {isSettled stops : Nat → Bool}

theorem Reached.flatMap_nodes (h : task.Reached ranges completed steps world)
    (hsplit : ranges.flatMap NodeRange.nodes = List.range task.count) :
    steps.flatMap (·.range.nodes) = List.range task.count := by
  rw [← hsplit, ← h.ranges_eq, List.flatMap_map]

/-- No step fails in the next iteration. -/
theorem Reached.exists_sweep (h : task.Reached ranges completed steps world)
    (hvalid : task.Valid) (hsplit : ranges.flatMap NodeRange.nodes = List.range task.count)
    (isSettled : Nat → Bool) :
    ∃ swept later, (ClusterStep.computation task.dimension isSettled).sweep completed steps world =
        (swept, later, .ok (decide (0 < (swept.map ClusterStep.swaps).sum))) ∧
      ClusterStep.Swept task world.centroids steps world swept later := by
  have hnodes := h.flatMap_nodes hsplit
  exact ClusterStep.exists_sweep hvalid h.steps_fit h.world_fits
    (fun node hnode ↦ List.mem_range.mp (hnodes ▸ hnode)) (hnodes ▸ List.nodup_range) isSettled
    completed

/-- What the next iteration has done, and whether it reports a change. -/
theorem Reached.swept_of_sweep (h : task.Reached ranges completed steps world)
    (hvalid : task.Valid) (hsplit : ranges.flatMap NodeRange.nodes = List.range task.count)
    {changed : Bool} (hsweep : (ClusterStep.computation task.dimension isSettled).sweep completed
      steps world = (swept, later, .ok changed)) :
    ClusterStep.Swept task world.centroids steps world swept later ∧
      changed = decide (0 < (swept.map ClusterStep.swaps).sum) := by
  obtain ⟨others, beyond, hagain, hswept⟩ := h.exists_sweep hvalid hsplit isSettled
  obtain ⟨rfl, hworld⟩ := Prod.mk.inj (hsweep.symm.trans hagain)
  obtain ⟨rfl, hflag⟩ := Prod.mk.inj hworld
  exact ⟨hswept, Except.ok.inj hflag⟩

/-- The iteration assigns all nodes to their nearest centroids. -/
theorem Reached.communities_of_swept (h : task.Reached ranges completed steps world)
    (hsplit : ranges.flatMap NodeRange.nodes = List.range task.count)
    (hswept : ClusterStep.Swept task world.centroids steps world swept later) {node : Nat}
    (hnode : node < task.count) :
    later.communities[node]? = some (some (task.nearest world.centroids node)) := by
  have hmem : node ∈ steps.flatMap (·.range.nodes) :=
    h.flatMap_nodes hsplit ▸ List.mem_range.mpr hnode
  rw [hswept.communities_eq, if_pos hmem]

/-- An iteration without a change comes after one with a change, and leaves everything as it is. -/
theorem Reached.clustered_of_unchanged (h : task.Reached ranges completed steps world)
    (hcount : 0 < task.count) (hsplit : ranges.flatMap NodeRange.nodes = List.range task.count)
    (hswept : ClusterStep.Swept task world.centroids steps world swept later)
    (hunchanged : (swept.map ClusterStep.swaps).sum = 0) :
    later = world ∧ ∃ community, task.Clustered ranges community world := by
  have hsame : ∀ node < task.count,
      world.communities[node]? = some (some (task.nearest world.centroids node)) := by
    intro node hnode
    have hmem : node ∈ steps.flatMap (·.range.nodes) :=
      h.flatMap_nodes hsplit ▸ List.mem_range.mpr hnode
    simpa using List.countP_eq_zero.mp (hswept.swaps_eq.symm.trans hunchanged) node hmem
  have hcommunities : later.communities = world.communities := by
    apply Array.ext_getElem?
    intro node
    by_cases hnode : node < task.count
    · rw [h.communities_of_swept hsplit hswept hnode, hsame node hnode]
    · have hout : world.communities.size ≤ node :=
        h.world_fits.size_communities.trans_le (Nat.le_of_not_lt hnode)
      rw [Array.getElem?_eq_none hout,
        Array.getElem?_eq_none (hswept.size_communities.trans_le hout)]
  -- Before the first iteration no node has a cluster, so that it changes all of them.
  have hpositive : completed ≠ 0 := by
    intro hzero
    have hnone := (h.unassigned hzero 0 hcount).symm.trans (hsame 0 hcount)
    exact nomatch hnone
  exact ⟨hswept.world_eq.trans (by rw [hcommunities]), h.clustered hpositive⟩

/-- The barrier after an iteration moves the centroids to the means of the new clusters. -/
theorem Reached.exists_barrier (h : task.Reached ranges completed steps world)
    (hvalid : task.Valid) (hsplit : ranges.flatMap NodeRange.nodes = List.range task.count)
    (hswept : ClusterStep.Swept task world.centroids steps world swept later)
    (isSettled : Nat → Bool) :
    ∃ after final, (ClusterStep.computation task.dimension isSettled).barrier (completed + 1) swept
        later = (after, final,
          .ok (if isSettled (swept.map ClusterStep.swaps).sum then .halt else .proceed)) ∧
      task.Reached ranges (completed + 1) after final := by
  have hlater : later.Fits task := by
    rw [hswept.world_eq]
    exact ⟨h.world_fits.points_eq, hswept.size_communities.trans h.world_fits.size_communities,
      h.world_fits.size_centroids⟩
  have hswaps := fun step hstep ↦
    And.intro (hswept.steps_fit step hstep).1 (hswept.tallies step hstep)
  obtain ⟨after, moved, hbarrier, hranges, hafter, hmoves⟩ :=
    ClusterStep.exists_barrier hvalid hswaps hlater isSettled (completed + 1)
  rw [hswept.ranges_eq, h.ranges_eq] at hranges hmoves
  refine ⟨after, _, hbarrier, hranges, hafter, ?_, nofun, fun _ ↦ ?_⟩
  · exact ⟨hlater.points_eq, hlater.size_communities, hmoves.size_eq.trans hlater.size_centroids⟩
  · exact ⟨task.nearest world.centroids, fun node _ ↦ hvalid.nearest_lt _ node,
      fun node hnode ↦ h.communities_of_swept hsplit hswept hnode,
      fun c hc hne d hd ↦ hmoves.new_eq c d hd ⟨hc, hne⟩⟩

theorem reached_of_reaches (hvalid : task.Valid)
    (hsplit : ranges.flatMap NodeRange.nodes = List.range task.count)
    (hstart : task.Reached ranges 0 steps world) {now : List (ClusterStep R)}
    {between : ClusterWorld R}
    (hreaches : (ClusterStep.computation task.dimension isSettled).Reaches steps world completed
      now between) : task.Reached ranges completed now between := by
  induction hreaches with
  | start => exact hstart
  | @next completed now after between final _ hproceeds ih =>
    obtain ⟨swept, later, hsweep, hbarrier⟩ := hproceeds
    obtain ⟨hswept, _⟩ := ih.swept_of_sweep hvalid hsplit hsweep
    obtain ⟨moved, outside, hmoved, hreached⟩ := ih.exists_barrier hvalid hsplit hswept isSettled
    obtain ⟨rfl, hfinal⟩ := Prod.mk.inj (hbarrier.symm.trans hmoved)
    obtain ⟨rfl, _⟩ := Prod.mk.inj hfinal
    exact hreached

/-- A run fails only if it is interrupted. However else it ends, the centroids of the clusters are
the means of their nodes. -/
theorem clustered_of_run (hvalid : task.Valid) (hcount : 0 < task.count)
    (hsplit : ranges.flatMap NodeRange.nodes = List.range task.count)
    (hstart : task.Reached ranges 0 steps world) (isSettled : Nat → Bool)
    (hzero : stops 0 = false) {i : Nat} (hstops : stops i = true) (hi : i < UInt64.size) :
    let ended := (ClusterStep.computation task.dimension isSettled).run stops steps world
    (∀ error, ended.result = .error error → error = .interrupted) ∧
      ∀ outcome, ended.result = .ok outcome →
        ended.world.Fits task ∧ ∃ community, task.Clustered ranges community ended.world := by
  intro ended
  have hmany : ended.result ≠ .error .tooManyIterations :=
    Computation.run_ne_tooManyIterations hstops hi
  obtain ⟨completed, now, between, final, _, hreaches, _, hends, hrun⟩ :=
    (ClusterStep.computation task.dimension isSettled).exists_ends stops steps world
  have hreached := reached_of_reaches hvalid hsplit hstart hreaches
  have hworld : ended.world = final.world := (congrArg Ended.world hrun).trans rfl
  have hresult : ended.result = final.result := (congrArg Ended.result hrun).trans rfl
  rw [hresult] at hmany
  rw [hworld, hresult]
  cases hends with
  | interrupted => exact ⟨fun error herror ↦ (Except.error.inj herror).symm, nofun⟩
  | exhausted => exact absurd rfl hmany
  | stopped hstopped =>
    -- The barrier of an earlier iteration has moved the centroids, as the rule allows at least one.
    have hpositive : completed ≠ 0 := by
      rintro rfl
      exact Bool.false_ne_true (hzero.symm.trans hstopped)
    exact ⟨nofun, fun _ _ ↦ ⟨hreached.world_fits, hreached.clustered hpositive⟩⟩
  | failed hfails =>
    obtain ⟨swept, later, hsweep, _⟩ := hreached.exists_sweep hvalid hsplit isSettled
    exact nomatch hfails.symm.trans hsweep
  | unchanged _ hsame =>
    -- The barrier is left out here, but the centroids are still those of the same clusters.
    obtain ⟨hswept, hflag⟩ := hreached.swept_of_sweep hvalid hsplit hsame
    have hswaps := of_decide_eq_false hflag.symm
    obtain ⟨rfl, hclustered⟩ :=
      hreached.clustered_of_unchanged hcount hsplit hswept (Nat.eq_zero_of_not_pos hswaps)
    exact ⟨nofun, fun _ _ ↦ ⟨hreached.world_fits, hclustered⟩⟩
  | barrierFailed hchanged hfails =>
    obtain ⟨hswept, _⟩ := hreached.swept_of_sweep hvalid hsplit hchanged
    obtain ⟨after, beyond, hbarrier, _⟩ :=
      hreached.exists_barrier hvalid hsplit hswept isSettled
    exact nomatch hfails.symm.trans hbarrier
  | halted _ hchanged hhalts =>
    obtain ⟨hswept, _⟩ := hreached.swept_of_sweep hvalid hsplit hchanged
    obtain ⟨after, beyond, hbarrier, hnext⟩ :=
      hreached.exists_barrier hvalid hsplit hswept isSettled
    obtain ⟨_, hfinal⟩ := Prod.mk.inj (hhalts.symm.trans hbarrier)
    obtain ⟨rfl, _⟩ := Prod.mk.inj hfinal
    exact ⟨nofun, fun _ _ ↦ ⟨hnext.world_fits, hnext.clustered (Nat.succ_ne_zero completed)⟩⟩

end Runs

end ClusterTask

/-! ## Results -/

/-- What a clustering says about the clusters of the nodes. -/
structure Clustering.Describes (found : Clustering R) (task : ClusterTask R)
    (ranges : List NodeRange) (community : Nat → Nat) : Prop where
  community_lt : ∀ node < task.count, community node < task.k
  communities_eq : found.communities = ((List.range task.count).map community).toArray
  length_centroids : found.centroids.length = task.k
  length_centroid : ∀ centroid ∈ found.centroids, centroid.length = task.dimension
  centroids_eq : ∀ c < task.k, members community c (ranges.flatMap NodeRange.nodes) ≠ [] →
    found.centroids.getD c [] =
      (List.range task.dimension).map (clusterMean task.point community ranges c)
  distances_eq : found.distances = ((List.range task.count).map fun node ↦
    Scalar.sqrt ((task.point node).squaredDistance
      (found.centroids.getD (community node) []))).toArray

namespace Clustering.Describes

variable {found : Clustering R} {task : ClusterTask R} {ranges : List NodeRange}
variable {community : Nat → Nat} {node cluster : Nat}

theorem size_communities (h : found.Describes task ranges community) :
    found.communities.size = task.count := by
  rw [h.communities_eq]
  simp

theorem getD_communities (h : found.Describes task ranges community) (hnode : node < task.count) :
    found.communities.getD node 0 = community node := by
  rw [h.communities_eq]
  simp [hnode]

theorem lt_of_mem (h : found.Describes task ranges community)
    (hcluster : cluster ∈ found.communities) : cluster < task.k := by
  rw [h.communities_eq, List.mem_toArray] at hcluster
  obtain ⟨node, hnode, rfl⟩ := List.mem_map.mp hcluster
  exact h.community_lt node (List.mem_range.mp hnode)

theorem length_getD_centroids (h : found.Describes task ranges community)
    (hcluster : cluster < task.k) :
    (found.centroids.getD cluster []).length = task.dimension := by
  rw [← h.length_centroids] at hcluster
  rw [List.getD_eq_getElem _ _ hcluster]
  exact h.length_centroid _ (List.getElem_mem hcluster)

/-- The cluster of a node has its mean for a centroid. -/
theorem getD_centroids (h : found.Describes task ranges community)
    (hsplit : ranges.flatMap NodeRange.nodes = List.range task.count) (hnode : node < task.count) :
    found.centroids.getD (community node) [] = (List.range task.dimension).map
      (clusterMean task.point community ranges (community node)) := by
  have hmem : node ∈ members community (community node) (ranges.flatMap NodeRange.nodes) := by
    rw [hsplit]
    exact List.mem_filter.mpr ⟨List.mem_range.mpr hnode, beq_self_eq_true _⟩
  exact h.centroids_eq _ (h.community_lt node hnode) (List.ne_nil_of_mem hmem)

theorem size_distances (h : found.Describes task ranges community) :
    found.distances.size = task.count := by
  rw [h.distances_eq]
  simp

theorem getElem?_distances (h : found.Describes task ranges community)
    (hnode : node < task.count) : found.distances[node]? =
      some (Scalar.sqrt ((task.point node).squaredDistance
        (found.centroids.getD (community node) []))) := by
  rw [h.distances_eq, List.getElem?_toArray, List.getElem?_map, List.getElem?_range hnode]
  rfl

end Clustering.Describes

namespace ClusterTask

variable {task : ClusterTask R} {ranges : List NodeRange} {community : Nat → Nat}
variable {world : ClusterWorld R}

theorem Clustered.toList_communities (h : task.Clustered ranges community world)
    (hworld : world.Fits task) :
    world.communities.toList = (List.range task.count).map (some ∘ community) := by
  apply List.ext_getElem?
  intro node
  rw [Array.getElem?_toList, List.getElem?_map]
  by_cases hnode : node < task.count
  · rw [h.communities_eq node hnode, List.getElem?_range hnode]
    rfl
  · have hout : world.communities.size ≤ node :=
      hworld.size_communities.trans_le (Nat.le_of_not_lt hnode)
    rw [Array.getElem?_eq_none hout, List.getElem?_eq_none (by simpa using hnode)]
    rfl

/-- No node is without a cluster. -/
theorem Clustered.mapM_assigned (h : task.Clustered ranges community world)
    (hworld : world.Fits task) :
    world.communities.toList.mapM assigned = .ok ((List.range task.count).map community) := by
  rw [h.toList_communities hworld]
  refine (mapM_eq_ok (g := (·.getD 0)) fun cluster hcluster ↦ ?_).trans ?_
  · obtain ⟨node, _, rfl⟩ := List.mem_map.mp hcluster
    rfl
  · rw [List.map_map]
    rfl

/-- No slice is out of bounds when the distances are measured. -/
theorem Clustered.mapM_distance (h : task.Clustered ranges community world) (hvalid : task.Valid)
    (hworld : world.Fits task) :
    (((List.range task.count).map community).zipIdx.mapM
      fun pair ↦ task.distance world.centroids pair.1 pair.2) =
        .ok ((List.range task.count).map fun node ↦ Scalar.sqrt ((task.point node).squaredDistance
          (Slices.row world.centroids task.dimension (community node)))) := by
  refine (mapM_eq_ok (g := fun pair ↦ Scalar.sqrt ((task.point pair.2).squaredDistance
    (Slices.row world.centroids task.dimension pair.1))) ?_).trans ?_
  · rintro ⟨cluster, node⟩ hmem
    obtain ⟨hnode, hcluster⟩ := List.mem_zipIdx' hmem
    rw [List.length_map, List.length_range] at hnode
    rw [List.getElem_map, List.getElem_range] at hcluster
    change task.distance world.centroids cluster node = _
    rw [distance, Slices.read_row hvalid.size_points hnode, ok_bind,
      Slices.read_row hworld.size_centroids (hcluster ▸ h.community_lt node hnode)]
    rfl
  · refine congrArg Except.ok (List.ext_getElem (by simp) fun node _ _ ↦ ?_)
    simp

/-- What is found at the end of a run is what its clusters and centroids are. -/
theorem Clustered.exists_found (h : task.Clustered ranges community world) (hvalid : task.Valid)
    (hworld : world.Fits task) (outcome : Outcome) :
    ∃ found, task.found world outcome = .ok found ∧ found.outcome = outcome ∧
      found.Describes task ranges community := by
  have hrow : ∀ c < task.k, ((List.range task.k).map
      (Slices.row world.centroids task.dimension)).getD c [] =
        Slices.row world.centroids task.dimension c := by
    intro c hc
    simp [List.getD_eq_getElem?_getD, hc]
  rw [found, h.mapM_assigned hworld, ok_bind, h.mapM_distance hvalid hworld, ok_bind,
    Slices.chunks_eq hvalid.dimension_pos hworld.size_centroids, ok_bind]
  refine ⟨_, rfl, rfl, h.community_lt, rfl, by simp, ?_, ?_, ?_⟩
  · intro centroid hcentroid
    obtain ⟨c, hc, rfl⟩ := List.mem_map.mp hcentroid
    exact Slices.length_row hworld.size_centroids (List.mem_range.mp hc)
  · intro c hc hne
    rw [hrow c hc]
    apply List.ext_getElem?
    intro d
    by_cases hd : d < task.dimension
    · rw [Slices.getElem?_row hd, h.centroids_eq c hc hne d hd, List.getElem?_map,
        List.getElem?_range hd]
      rfl
    · have hlength := Slices.length_row hworld.size_centroids hc
      rw [List.getElem?_eq_none (hlength.trans_le (Nat.le_of_not_lt hd)),
        List.getElem?_eq_none (by simpa using hd)]
  · refine congrArg List.toArray (List.map_congr_left fun node hnode ↦ ?_)
    rw [hrow _ (h.community_lt node (List.mem_range.mp hnode))]

/-- A run fails only if it is interrupted. The clusters and centroids that it finds belong
together, whatever has ended it. -/
theorem run_spec (hvalid : task.Valid) (hcount : 0 < task.count) {centroids : Array R}
    (hcentroids : centroids.size = task.k * task.dimension) (stops isSettled : Nat → Bool)
    (hzero : stops 0 = false) {i : Nat} (hstops : stops i = true) (hi : i < UInt64.size)
    (concurrency : Nat) (isTerminated : Bool) :
    let result := task.run centroids stops isSettled concurrency isTerminated
    (∀ error, result = .error error → error = .run .interrupted) ∧
      ∀ found, result = .ok found → ∃ community, found.Describes task
        (rangePartition task.count (batchCount concurrency) 1) community := by
  have hsplit := flatMap_rangePartition task.count (batchCount concurrency) 1
  obtain ⟨herrors, hresults⟩ := clustered_of_run hvalid hcount hsplit
    (reached_start hcentroids concurrency isTerminated) isSettled hzero hstops hi
  intro result
  simp only [result, run]
  generalize (ClusterStep.computation task.dimension isSettled).run stops
    (task.steps concurrency centroids) _ = ended at herrors hresults ⊢
  cases hresult : ended.result with
  | error error =>
    rw [herrors error hresult]
    exact ⟨fun error herror ↦ (Except.error.inj herror).symm, nofun⟩
  | ok outcome =>
    obtain ⟨hworld, community, hclustered⟩ := hresults outcome hresult
    obtain ⟨found, hfound, _, hdescribes⟩ := hclustered.exists_found hvalid hworld outcome
    have hmapped : (Except.ok outcome : Except (RunError StepFailure) Outcome).mapError
      AlgorithmError.run = .ok outcome := rfl
    rw [hmapped, ok_bind, hfound]
    exact ⟨nofun, fun other hother ↦ ⟨community, Except.ok.inj hother ▸ hdescribes⟩⟩

end ClusterTask

end PackedGraph
