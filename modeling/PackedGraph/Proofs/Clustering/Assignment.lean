import Mathlib
import PackedGraph.Clustering.Centroids
import PackedGraph.Proofs.Clustering.Slices
import PackedGraph.Proofs.Iteration.Course
import PackedGraph.Proofs.Running

/-!
# Assigning points to clusters

A step assigns the nodes of its range to their nearest centroids, and adds up the points and the
number of nodes of each cluster. None of its reads and writes is a fault if the arrays fit the
number of points and clusters. An iteration assigns all nodes, and reports a change if one of them
had another cluster before.
-/

namespace PackedGraph

namespace Column

variable {α : Type} {values : Array α} {i : Nat} {value : α}

theorem element_eq (h : values[i]? = some value) : element values i = .ok value := by
  rw [element, h]

theorem replace_eq (h : i < values.size) :
    replace values i value = .ok (values.setIfInBounds i value) := if_pos h

end Column

variable {R : Type} [Scalar R]

/-- The nodes of a cluster among some nodes. -/
def members (community : Nat → Nat) (cluster : Nat) (nodes : List Nat) : List Nat :=
  nodes.filter (community · == cluster)

theorem members_congr {community other : Nat → Nat} {nodes : List Nat}
    (h : ∀ node ∈ nodes, community node = other node) (cluster : Nat) :
    members community cluster nodes = members other cluster nodes :=
  List.filter_congr fun node hnode ↦ by rw [h node hnode]

theorem members_append_singleton (community : Nat → Nat) (cluster : Nat) (nodes : List Nat)
    (node : Nat) :
    members community cluster (nodes ++ [node]) =
      members community cluster nodes ++ if cluster = community node then [node] else [] := by
  rw [members, members, List.filter_append]
  by_cases h : cluster = community node
  · rw [if_pos h, List.filter_cons_of_pos (by simpa using h.symm), List.filter_nil]
  · rw [if_neg h, List.filter_cons_of_neg (by simpa using Ne.symm h), List.filter_nil]

/-- The sum of a coordinate of some points, one after another. -/
def coordinateSum (point : Nat → Point R) (d : Nat) (nodes : List Nat) : R :=
  nodes.foldl (fun sum node ↦ Scalar.add sum ((point node).getD d Scalar.zero)) Scalar.zero

/-- The cluster of the nearest centroid is one of the clusters. -/
theorem nearestCluster_lt {centroids : List (Point R)} (h : centroids ≠ []) (point : Point R) :
    nearestCluster centroids point < centroids.length := by
  unfold nearestCluster
  apply List.foldlRecOn (motive := fun nearest : Nearest R ↦ nearest.cluster < centroids.length)
  · exact List.length_pos_of_ne_nil h
  · rintro nearest hnearest ⟨centroid, cluster⟩ hmem
    dsimp only
    split_ifs
    · exact (List.mem_zipIdx' hmem).1
    · exact hnearest

namespace ClusterTask

/-- The points stand one after another, and there are clusters for them. -/
structure Valid (task : ClusterTask R) : Prop where
  dimension_pos : 0 < task.dimension
  k_pos : 0 < task.k
  size_points : task.points.size = task.count * task.dimension

def point (task : ClusterTask R) (node : Nat) : Point R :=
  Slices.row task.points task.dimension node

/-- The cluster of the nearest one of some centroids. -/
def nearest (task : ClusterTask R) (centroids : Array R) (node : Nat) : Nat :=
  nearestCluster ((List.range task.k).map (Slices.row centroids task.dimension)) (task.point node)

variable {task : ClusterTask R}

theorem Valid.nearest_lt (h : task.Valid) (centroids : Array R) (node : Nat) :
    task.nearest centroids node < task.k := by
  have hne : (List.range task.k).map (Slices.row centroids task.dimension) ≠ [] := by
    simpa using h.k_pos.ne'
  simpa [nearest] using nearestCluster_lt hne (task.point node)

end ClusterTask

/-- The arrays of a step have places for all clusters. -/
structure ClusterStep.Fits (step : ClusterStep R) (task : ClusterTask R) : Prop where
  dimension_eq : step.dimension = task.dimension
  size_centroids : step.centroids.size = task.k * task.dimension
  size_sums : step.sums.size = task.k * task.dimension
  size_sizes : step.sizes.size = task.k

/-- The arrays of a world have places for all nodes and clusters. -/
structure ClusterWorld.Fits (world : ClusterWorld R) (task : ClusterTask R) : Prop where
  points_eq : world.points = task.points
  size_communities : world.communities.size = task.count
  size_centroids : world.centroids.size = task.k * task.dimension

namespace ClusterStep

variable {task : ClusterTask R} {step after : ClusterStep R} {world later : ClusterWorld R}

/-! ## Nodes -/

/-- The assignment of a node to its nearest cluster. -/
theorem exists_assign (hvalid : task.Valid) (hstep : step.Fits task) (hworld : world.Fits task)
    {node : Nat} (hnode : node < task.count) :
    let cluster := task.nearest step.centroids node
    ∃ sums sizes, step.assign world node =
        .ok ({ step with
          sums, sizes
          swaps := if world.communities[node]? = some (some cluster) then step.swaps
            else step.swaps + 1 },
          { world with communities := world.communities.setIfInBounds node (some cluster) }) ∧
      sums.size = step.sums.size ∧ sizes.size = step.sizes.size ∧
      (∀ c, sizes[c]? = if c = cluster then step.sizes[c]?.map (· + 1) else step.sizes[c]?) ∧
      ∀ c d, d < task.dimension → sums[c * task.dimension + d]? =
        if c = cluster then
          Option.map₂ Scalar.add step.sums[c * task.dimension + d]? (task.point node)[d]?
        else step.sums[c * task.dimension + d]? := by
  intro cluster
  have hcluster : cluster < task.k := hvalid.nearest_lt step.centroids node
  have hpoint : Slices.read task.points (node * task.dimension) task.dimension =
      .ok (task.point node) := Slices.read_row hvalid.size_points hnode
  have hchunks := Slices.chunks_eq hvalid.dimension_pos hstep.size_centroids
  have hin : node < world.communities.size := hworld.size_communities ▸ hnode
  have hplace : cluster < step.sizes.size := hstep.size_sizes ▸ hcluster
  have hlength : (task.point node).length = task.dimension :=
    Slices.length_row hvalid.size_points hnode
  obtain ⟨sums, hsums, hsize, hcells⟩ :=
    Slices.exists_combine_row Scalar.add hstep.size_sums hcluster hlength
  refine ⟨sums, step.sizes.setIfInBounds cluster (step.sizes[cluster] + 1), ?_, hsize,
    Array.size_setIfInBounds, fun c ↦ ?_, hcells⟩
  · have hcommunity := Array.getElem?_eq_getElem hin
    have hcluster : nearestCluster ((List.range task.k).map
      (Slices.row step.centroids task.dimension)) (task.point node) = cluster := rfl
    simp only [assign, hstep.dimension_eq, hworld.points_eq, hpoint, hchunks, ok_bind, hcluster,
      Column.element_eq hcommunity, Column.element_eq (Array.getElem?_eq_getElem hplace),
      Column.replace_eq hin, Column.replace_eq hplace, hsums, hcommunity, Option.some.injEq,
      bne_iff_ne, ne_eq, ite_not]
    rfl
  · rw [Array.getElem?_setIfInBounds]
    by_cases hc : c = cluster
    · subst hc
      rw [if_pos rfl, if_pos hplace, if_pos rfl, Array.getElem?_eq_getElem hplace, Option.map_some]
    · rw [if_neg (Ne.symm hc), if_neg hc]

/-- The sums and sizes of a step are those of the clusters among some nodes. -/
structure Tallies (step : ClusterStep R) (task : ClusterTask R) (community : Nat → Nat)
    (nodes : List Nat) : Prop where
  sizes_eq : ∀ c < task.k, step.sizes[c]? = some (members community c nodes).length
  sums_eq : ∀ c < task.k, ∀ d < task.dimension, step.sums[c * task.dimension + d]? =
    some (coordinateSum task.point d (members community c nodes))

theorem fits_clear (h : step.Fits task) : step.clear.Fits task where
  dimension_eq := h.dimension_eq
  size_centroids := h.size_centroids
  size_sums := Array.size_map.trans h.size_sums
  size_sizes := Array.size_map.trans h.size_sizes

theorem tallies_clear (h : step.Fits task) (community : Nat → Nat) :
    step.clear.Tallies task community [] := by
  constructor
  · intro c hc
    have hin : c < step.sizes.size := h.size_sizes ▸ hc
    rw [clear, Array.getElem?_map, Array.getElem?_eq_getElem hin]
    rfl
  · intro c hc d hd
    have hin : c * task.dimension + d < step.sums.size := h.size_sums ▸ Slices.cell_lt hc hd
    rw [clear, Array.getElem?_map, Array.getElem?_eq_getElem hin]
    rfl

/-- What a step has done when it has assigned some nodes. -/
structure Assigned (task : ClusterTask R) (step : ClusterStep R) (world : ClusterWorld R)
    (nodes : List Nat) (after : ClusterStep R) (later : ClusterWorld R) : Prop where
  range_eq : after.range = step.range
  centroids_eq : after.centroids = step.centroids
  fits : after.Fits task
  tallies : after.Tallies task (task.nearest step.centroids) nodes
  swaps_eq : after.swaps = nodes.countP fun node ↦
    world.communities[node]? ≠ some (some (task.nearest step.centroids node))
  world_eq : later = { world with communities := later.communities }
  size_communities : later.communities.size = world.communities.size
  communities_eq : ∀ node, later.communities[node]? =
    if node ∈ nodes then some (some (task.nearest step.centroids node))
    else world.communities[node]?

theorem Assigned.fits_world {nodes : List Nat} (h : Assigned task step world nodes after later)
    (hworld : world.Fits task) : later.Fits task := by
  constructor
  · rw [h.world_eq]
    exact hworld.points_eq
  · exact h.size_communities.trans hworld.size_communities
  · rw [h.world_eq]
    exact hworld.size_centroids

theorem assigned_clear (hstep : step.Fits task) (world : ClusterWorld R) :
    Assigned task step world [] step.clear world where
  range_eq := rfl
  centroids_eq := rfl
  fits := fits_clear hstep
  tallies := tallies_clear hstep _
  swaps_eq := rfl
  world_eq := rfl
  size_communities := rfl
  communities_eq _ := (if_neg List.not_mem_nil).symm

/-- A step that has assigned some nodes goes on with the next one. -/
theorem Assigned.exists_next (hvalid : task.Valid) (hworld : world.Fits task) {nodes : List Nat}
    {now : ClusterStep R} {between : ClusterWorld R}
    (h : Assigned task step world nodes now between) {node : Nat} (hnode : node < task.count)
    (hfresh : node ∉ nodes) :
    ∃ after later, now.assign between node = .ok (after, later) ∧
      Assigned task step world (nodes ++ [node]) after later := by
  obtain ⟨sums, sizes, hassign, hsums, hsizes, hsizeOf, hsumOf⟩ :=
    exists_assign hvalid h.fits (h.fits_world hworld) hnode
  have hplace : node < between.communities.size :=
    (h.fits_world hworld).size_communities.symm ▸ hnode
  -- The node is assigned for the first time, and so has the cluster of the last iteration.
  have hold : between.communities[node]? = world.communities[node]? :=
    (h.communities_eq node).trans (if_neg hfresh)
  rw [h.centroids_eq] at hassign hsizeOf hsumOf
  refine ⟨_, _, hassign, ?_⟩
  constructor
  · exact h.range_eq
  · rfl
  · exact ⟨h.fits.dimension_eq, h.centroids_eq ▸ h.fits.size_centroids,
      hsums.trans h.fits.size_sums, hsizes.trans h.fits.size_sizes⟩
  · constructor
    · intro c hc
      simp only [hsizeOf, h.tallies.sizes_eq c hc, members_append_singleton]
      split_ifs <;> simp
    · intro c hc d hd
      simp only [hsumOf c d hd, h.tallies.sums_eq c hc d hd, members_append_singleton]
      split_ifs
      · have hlength : d < (task.point node).length := by
          rwa [ClusterTask.point, Slices.length_row hvalid.size_points hnode]
        simp only [coordinateSum, List.foldl_append, List.foldl_cons, List.foldl_nil,
          List.getD_eq_getElem?_getD, List.getElem?_eq_getElem hlength]
        rfl
      · rw [List.append_nil]
  · simp only [hold, h.swaps_eq, List.countP_append, List.countP_singleton]
    split_ifs <;> simp_all
  · rw [h.world_eq]
  · exact Array.size_setIfInBounds.trans h.size_communities
  · intro other
    simp only [Array.getElem?_setIfInBounds, List.mem_append, List.mem_singleton]
    by_cases hother : other = node
    · subst hother
      rw [if_pos rfl, if_pos hplace, if_pos (.inr rfl)]
    · simp only [if_neg (Ne.symm hother), hother, or_false, h.communities_eq]

/-- A step assigns the nodes of its range. -/
theorem exists_compute (hvalid : task.Valid) (hfits : step.Fits task) (hworld : world.Fits task)
    (hrange : ∀ node ∈ step.range.nodes, node < task.count) :
    ∃ after later, step.compute world = .ok (after, later) ∧
      Assigned task step world step.range.nodes after later := by
  have hnodup : step.range.nodes.Nodup := List.nodup_range'
  have hstep : ∀ done node rest (state : ClusterStep R × ClusterWorld R),
      step.range.nodes = done ++ node :: rest → Assigned task step world done state.1 state.2 →
      ∃ next, state.1.assign state.2 node = .ok next ∧
        Assigned task step world (done ++ [node]) next.1 next.2 := by
    rintro done node rest ⟨now, between⟩ hnodes hdone
    rw [hnodes] at hnodup hrange
    have hnode := hrange node (by simp)
    have hfresh : node ∉ done := fun hmem ↦
      List.disjoint_of_nodup_append hnodup hmem List.mem_cons_self
    obtain ⟨after, later, hassign, hnext⟩ := hdone.exists_next hvalid hworld hnode hfresh
    exact ⟨(after, later), hassign, hnext⟩
  have hfold : ∃ final : ClusterStep R × ClusterWorld R, step.compute world = .ok final ∧
      Assigned task step world step.range.nodes final.1 final.2 :=
    exists_foldlM_eq_ok (assigned_clear hfits world) hstep
  obtain ⟨⟨after, later⟩, hcompute, hassigned⟩ := hfold
  exact ⟨after, later, hcompute, hassigned⟩

/-! ## Iterations -/

variable {steps swept : List (ClusterStep R)} {centroids : Array R}

/-- What an iteration around some centroids has done. -/
structure Swept (task : ClusterTask R) (centroids : Array R) (steps : List (ClusterStep R))
    (world : ClusterWorld R) (swept : List (ClusterStep R)) (later : ClusterWorld R) : Prop where
  ranges_eq : swept.map range = steps.map range
  steps_fit : ∀ step ∈ swept, step.Fits task ∧ step.centroids = centroids
  tallies : ∀ step ∈ swept, step.Tallies task (task.nearest centroids) step.range.nodes
  swaps_eq : (swept.map swaps).sum = (steps.flatMap (·.range.nodes)).countP fun node ↦
    world.communities[node]? ≠ some (some (task.nearest centroids node))
  world_eq : later = { world with communities := later.communities }
  size_communities : later.communities.size = world.communities.size
  communities_eq : ∀ node, later.communities[node]? =
    if node ∈ steps.flatMap (·.range.nodes) then some (some (task.nearest centroids node))
    else world.communities[node]?

/-- The steps after the first one do not see its nodes. -/
theorem Assigned.swept_cons {between : ClusterWorld R}
    (h : Assigned task step world step.range.nodes after between)
    (hswept : Swept task step.centroids steps between swept later)
    (hdisjoint : step.range.nodes.Disjoint (steps.flatMap (·.range.nodes))) :
    Swept task step.centroids (step :: steps) world (after :: swept) later := by
  have huntouched : ∀ node ∈ steps.flatMap (·.range.nodes),
      between.communities[node]? = world.communities[node]? := fun node hnode ↦
    (h.communities_eq node).trans (if_neg fun hin ↦ hdisjoint hin hnode)
  constructor
  · rw [List.map_cons, List.map_cons, h.range_eq, hswept.ranges_eq]
  · exact List.forall_mem_cons.mpr ⟨⟨h.fits, h.centroids_eq⟩, hswept.steps_fit⟩
  · refine List.forall_mem_cons.mpr ⟨?_, hswept.tallies⟩
    rw [h.range_eq]
    exact h.tallies
  · rw [List.map_cons, List.sum_cons, List.flatMap_cons, List.countP_append, h.swaps_eq,
      hswept.swaps_eq]
    congr 1
    apply List.countP_congr
    intro node hnode
    rw [huntouched node hnode]
  · rw [hswept.world_eq, h.world_eq]
  · exact hswept.size_communities.trans h.size_communities
  · intro node
    rw [hswept.communities_eq, h.communities_eq, List.flatMap_cons]
    by_cases hlater : node ∈ steps.flatMap (·.range.nodes)
    · rw [if_pos hlater, if_pos (List.mem_append_right _ hlater)]
    · rw [if_neg hlater]
      simp only [List.mem_append, hlater, or_false]

/-- No step of an iteration fails. It reports a change if a node has changed its cluster. -/
theorem exists_sweep (hvalid : task.Valid)
    (hsteps : ∀ step ∈ steps, step.Fits task ∧ step.centroids = centroids)
    (hworld : world.Fits task) (hnodes : ∀ node ∈ steps.flatMap (·.range.nodes), node < task.count)
    (hnodup : (steps.flatMap (·.range.nodes)).Nodup) (isSettled : Nat → Bool) (iteration : Nat) :
    ∃ swept later, (computation task.dimension isSettled).sweep iteration steps world =
        (swept, later, .ok (decide (0 < (swept.map swaps).sum))) ∧
      Swept task centroids steps world swept later := by
  induction steps generalizing world with
  | nil => exact ⟨[], world, rfl, rfl, nofun, nofun, rfl, rfl, rfl, fun _ ↦ rfl⟩
  | cons step steps ih =>
    obtain ⟨⟨hfits, hcentroids⟩, hsteps⟩ := List.forall_mem_cons.mp hsteps
    subst hcentroids
    rw [List.flatMap_cons] at hnodes hnodup
    obtain ⟨_, hrest, hdisjoint⟩ := List.nodup_append'.mp hnodup
    obtain ⟨after, between, hcompute, hassigned⟩ := exists_compute hvalid hfits hworld
      fun node hnode ↦ hnodes node (List.mem_append_left _ hnode)
    obtain ⟨swept, later, hsweep, hswept⟩ := ih hsteps (hassigned.fits_world hworld)
      (fun node hnode ↦ hnodes node (List.mem_append_right _ hnode)) hrest
    have hstep : (computation task.dimension isSettled).compute iteration step world =
        (after, between, .ok (decide (0 < after.swaps))) := by
      simp only [computation, hcompute]
    refine ⟨after :: swept, later, ?_, hassigned.swept_cons hswept hdisjoint⟩
    simp only [Computation.sweep, hstep, hsweep, Except.map, List.map_cons, List.sum_cons,
      Nat.add_pos_iff_pos_or_pos, Bool.decide_or]

end ClusterStep

end PackedGraph
