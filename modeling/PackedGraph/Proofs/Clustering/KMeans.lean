import Mathlib
import PackedGraph.Clustering.KMeans
import PackedGraph.Proofs.Clustering.Runs
import PackedGraph.Proofs.Random.Sample
import PackedGraph.Proofs.View.NodeData

/-!
# K-means finds consistent clusters

The points of a view are rows of one positive dimension, because a missing value is an empty array.
A run of k-means is never at fault, and what it finds is consistent, whatever has ended it: the
centroids of the clusters with nodes are the means of their nodes, and the distances are those from
the centroids.
-/

namespace PackedGraph

/-! ## Outcomes that are no faults -/

section Faultless

variable {α β : Type} {p : α → Prop} {q : β → Prop}

/-- An outcome is not a fault, and if it is a result, the result has a property. -/
def Faultless (outcome : Except AlgorithmError α) (p : α → Prop) : Prop :=
  (∀ error, outcome = .error error → error.fault? = none) ∧ ∀ a, outcome = .ok a → p a

namespace Faultless

theorem ok {a : α} (h : p a) : Faultless (.ok a) p :=
  ⟨nofun, fun _ hb ↦ Except.ok.inj hb ▸ h⟩

theorem error {error : AlgorithmError} (h : error.fault? = none) : Faultless (.error error) p :=
  ⟨fun _ hother ↦ Except.error.inj hother ▸ h, nofun⟩

theorem bind {outcome : Except AlgorithmError α} {next : α → Except AlgorithmError β}
    (h : Faultless outcome p) (hnext : ∀ a, p a → Faultless (next a) q) :
    Faultless (outcome >>= next) q := by
  cases outcome with
  | error error => exact .error (h.1 error rfl)
  | ok a => exact hnext a (h.2 a rfl)

end Faultless

end Faultless

/-! ## Points -/

namespace Column

/-- The array of a node is not empty, unless it is missing. -/
theorem exists_arrayValue_eq {column : Column} {node : Nat} (h : node < column.size) :
    ∃ value, column.arrayValue node = .ok value ∧ ∀ values, value = some values → values ≠ #[] := by
  cases column with
  | long values => exact ⟨none, rfl, nofun⟩
  | double values =>
    rw [arrayValue, element_eq (Array.getElem?_eq_getElem h)]
    refine ⟨_, rfl, fun found hfound ↦ ?_⟩
    split_ifs at hfound
    rw [← Option.some.inj hfound]
    simp
  | doubleArray values =>
    rw [arrayValue, element_eq (Array.getElem?_eq_getElem h)]
    refine ⟨_, rfl, fun found hfound ↦ ?_⟩
    split_ifs at hfound with hempty
    rw [← Option.some.inj hfound]
    simpa using hempty

theorem ne_empty_of_arrayValue_eq {column : Column} {node : Nat} {values : Array Float}
    (h : column.arrayValue node = .ok (some values)) : values ≠ #[] := by
  cases column with
  | long _ => exact nomatch h
  | double column =>
    obtain ⟨value, _, hvalue⟩ := exists_of_bind_eq_ok h
    have hfound := Except.ok.inj hvalue
    split_ifs at hfound
    rw [← Option.some.inj hfound]
    simp
  | doubleArray column =>
    obtain ⟨value, _, hvalue⟩ := exists_of_bind_eq_ok h
    have hfound := Except.ok.inj hvalue
    split_ifs at hfound with hempty
    rw [← Option.some.inj hfound]
    simpa using hempty

end Column

theorem View.column?_of_columnFor_eq {view : View} {role : PropertyRole} {key : String}
    {column : Column} (h : view.columnFor role key = .ok column) :
    view.column? key = some column := by
  unfold columnFor at h
  split at h
  · exact nomatch h
  · rename_i found hfound
    split_ifs at h
    rw [hfound, Except.ok.inj h]

namespace KMeans

variable {kmeans : KMeans} {column : Column} {nodes : List Nat} {points : Array Float}
variable {dimension : Option Nat}

/-- The coordinates of a node in a column. -/
def coordinates (column : Column) (node : Nat) : Point Float :=
  match column.arrayValue node with
  | .ok (some values) => values.toList
  | _ => []

/-- The coordinates of a node in the property of the clustering. -/
def point (kmeans : KMeans) (node : Nat) : Point Float :=
  (kmeans.view.column? kmeans.key).elim [] (coordinates · node)

/-- The points of some nodes are read one after another, and all have the same positive
dimension. -/
theorem points_of_readPoints {read : Array Float × Option Nat}
    (h : kmeans.readPoints column points dimension nodes = .ok read) :
    read.1.toList = points.toList ++ nodes.flatMap (coordinates column) ∧
      (∀ d, dimension = some d → read.2 = some d) ∧
      ∀ node ∈ nodes, coordinates column node ≠ [] ∧
        read.2 = some (coordinates column node).length := by
  induction nodes generalizing points dimension with
  | nil =>
    obtain rfl := Except.ok.inj h
    exact ⟨(List.append_nil _).symm, fun _ h ↦ h, nofun⟩
  | cons node nodes ih =>
    rw [readPoints] at h
    obtain ⟨value, hmapped, hrest⟩ := exists_of_bind_eq_ok h
    have hvalue := eq_ok_of_mapError_eq_ok hmapped
    cases value with
    | none =>
      obtain ⟨_, _, hthrown⟩ := exists_of_bind_eq_ok hrest
      exact nomatch hthrown
    | some values =>
      have hcoordinates : coordinates column node = values.toList := by rw [coordinates, hvalue]
      dsimp only at hrest
      split_ifs at hrest with hdimension
      · obtain ⟨_, _, hthrown⟩ := exists_of_bind_eq_ok hrest
        exact nomatch hthrown
      · -- The first of the nodes decides on the dimension, which the others then keep.
        rw [ne_eq, not_not] at hdimension
        obtain ⟨hread, hkeeps, hothers⟩ := ih hrest
        have hfound : read.2 = some values.size := hkeeps _ (hdimension ▸ rfl)
        refine ⟨?_, fun d hd ↦ ?_, List.forall_mem_cons.mpr ⟨⟨?_, ?_⟩, hothers⟩⟩
        · rw [hread, Array.toList_append, List.append_assoc, List.flatMap_cons, hcoordinates]
        · rw [hfound, hdimension, hd, Option.getD_some]
        · rw [hcoordinates, ne_eq, Array.toList_eq_nil_iff]
          exact Column.ne_empty_of_arrayValue_eq hvalue
        · rw [hfound, hcoordinates, Array.length_toList]

theorem faultless_readPoints
    (horiginal : ∀ node ∈ nodes, ∃ original, kmeans.view.original node = .ok original)
    (hcolumn : ∀ node ∈ nodes, node < column.size) (points : Array Float)
    (dimension : Option Nat) :
    Faultless (kmeans.readPoints column points dimension nodes) fun read ↦
      read.1.toList = points.toList ++ nodes.flatMap (coordinates column) ∧
        (∀ d, dimension = some d → read.2 = some d) ∧
        ∀ node ∈ nodes, coordinates column node ≠ [] ∧
          read.2 = some (coordinates column node).length := by
  refine ⟨fun error herror ↦ ?_, fun _ hread ↦ points_of_readPoints hread⟩
  induction nodes generalizing points dimension with
  | nil => exact nomatch herror
  | cons node nodes ih =>
    obtain ⟨⟨original, hnode⟩, horiginals⟩ := List.forall_mem_cons.mp horiginal
    obtain ⟨hplace, hplaces⟩ := List.forall_mem_cons.mp hcolumn
    obtain ⟨value, hvalue, _⟩ := Column.exists_arrayValue_eq hplace
    have hmapped : (column.arrayValue node).mapError AlgorithmError.broken = .ok value := by
      rw [hvalue]
      rfl
    rw [readPoints, hmapped, ok_bind, hnode] at herror
    cases value with
    | none =>
      rw [← Except.error.inj herror]
      rfl
    | some values =>
      dsimp only at herror
      split_ifs at herror
      · rw [← Except.error.inj herror]
        rfl
      · exact ih horiginals hplaces _ _ herror

/-- A task holds the points of all nodes. -/
structure Poses (kmeans : KMeans) (task : ClusterTask Float) : Prop where
  count_eq : task.count = kmeans.view.nodeCount
  k_eq : task.k = kmeans.k
  size_points : task.points.size = task.count * task.dimension
  dimension_pos : 0 < task.count → 0 < task.dimension
  length_point : ∀ node < task.count, (kmeans.point node).length = task.dimension
  point_eq : ∀ node < task.count, task.point node = kmeans.point node

theorem poses_of_task {task : ClusterTask Float} (h : kmeans.task = .ok task) :
    kmeans.Poses task := by
  obtain ⟨column, hfor, hrest⟩ := exists_of_bind_eq_ok h
  obtain ⟨⟨points, dimension⟩, hread, hreturned⟩ := exists_of_bind_eq_ok hrest
  obtain rfl := Except.ok.inj hreturned
  have hcolumn := View.column?_of_columnFor_eq (eq_ok_of_mapError_eq_ok hfor)
  obtain ⟨hpoints, _, hdimension⟩ := points_of_readPoints hread
  have hpoint : coordinates column = kmeans.point := by
    funext node
    rw [point, hcolumn]
    rfl
  rw [hpoint] at hpoints hdimension
  have hlength : ∀ node < kmeans.view.nodeCount,
      (kmeans.point node).length = dimension.getD 0 := by
    intro node hnode
    have hfound : dimension = some _ := (hdimension node (List.mem_range.mpr hnode)).2
    rw [hfound, Option.getD_some]
  have hpositive : 0 < kmeans.view.nodeCount → 0 < dimension.getD 0 := by
    intro hcount
    rw [← hlength 0 hcount]
    exact List.length_pos_of_ne_nil (hdimension 0 (List.mem_range.mpr hcount)).1
  exact ⟨rfl, rfl, Slices.size_of_flatMap hpoints hlength, hpositive, hlength,
    fun node hnode ↦ Slices.row_eq_of_flatMap hpoints hlength hnode⟩

theorem faultless_task (hview : kmeans.view.NodesComplete) :
    Faultless kmeans.task kmeans.Poses := by
  have hfaultless : Faultless kmeans.task fun _ ↦ True := by
    rw [task]
    cases hfor : kmeans.view.columnFor .point kmeans.key with
    | error error => exact .error rfl
    | ok column =>
      have hsize := hview.size_columns kmeans.key column (View.column?_of_columnFor_eq hfor)
      have horiginal : ∀ node ∈ List.range kmeans.view.nodeCount,
          ∃ original, kmeans.view.original node = .ok original :=
        fun node hnode ↦ hview.exists_original node (List.mem_range.mp hnode)
      have hplace : ∀ node ∈ List.range kmeans.view.nodeCount, node < column.size :=
        fun node hnode ↦ hsize ▸ List.mem_range.mp hnode
      exact (faultless_readPoints horiginal hplace #[] none).bind fun _ _ ↦ .ok trivial
  exact ⟨hfaultless.1, fun _ htask ↦ poses_of_task htask⟩

/-! ## Clusters -/

/-- The points of a sample fill the first centroids. -/
theorem exists_firstCentroids {task : ClusterTask Float} {sample : List Nat}
    (hsize : task.points.size = task.count * task.dimension)
    (hsample : Sample.Valid sample task.count task.k) :
    ∃ centroids, firstCentroids task sample = .ok centroids ∧
      centroids.size = task.k * task.dimension := by
  refine exists_foldlM_eq_ok (motive := fun _ (centroids : Array Float) ↦
    centroids.size = task.k * task.dimension) Array.size_replicate ?_
  rintro done ⟨node, cluster⟩ rest centroids hzip hcentroids
  have hmem : (node, cluster) ∈ sample.zipIdx := hzip ▸ by simp
  obtain ⟨hcluster, hnode⟩ := List.mem_zipIdx' hmem
  rw [hsample.length_eq] at hcluster
  have hlt : node < task.count := hsample.lt node (hnode ▸ List.getElem_mem _)
  obtain ⟨after, hafter, hsame⟩ :=
    Slices.exists_copy_row hcentroids hcluster (Slices.length_row hsize hlt)
  refine ⟨after, ?_, hsame.trans hcentroids⟩
  dsimp only
  rw [Slices.read_row hsize hlt]
  exact hafter

/-- The points of all nodes can be clustered around a sample of them. -/
theorem Poses.exists_firstCentroids {task : ClusterTask Float} {sampler : Sampler}
    (h : kmeans.Poses task) (hk : 0 < kmeans.k) (hle : kmeans.k ≤ kmeans.view.nodeCount)
    (hsampler : ∀ n k, k ≤ n → Sample.Valid (sampler kmeans.seed n k) n k) :
    task.Valid ∧ 0 < task.count ∧ ∃ centroids,
      firstCentroids task (sampler kmeans.seed kmeans.view.nodeCount kmeans.k) = .ok centroids ∧
        centroids.size = task.k * task.dimension := by
  have hsample := hsampler kmeans.view.nodeCount kmeans.k hle
  rw [← h.k_eq] at hk
  rw [← h.count_eq, ← h.k_eq] at hle hsample ⊢
  have hcount : 0 < task.count := hk.trans_le hle
  exact ⟨⟨h.dimension_pos hcount, hk, h.size_points⟩, hcount,
    KMeans.exists_firstCentroids h.size_points hsample⟩

/-- The ranges whose sums are added up. -/
def ranges (kmeans : KMeans) : List NodeRange :=
  rangePartition kmeans.view.nodeCount (batchCount kmeans.concurrency) 1

theorem faultless_clustering {sampler : Sampler} (hview : kmeans.view.NodesComplete)
    (hk : 0 < kmeans.k) (hiterations : 0 < kmeans.maxIterations)
    (hbound : kmeans.maxIterations < UInt64.size)
    (hsampler : ∀ n k, k ≤ n → Sample.Valid (sampler kmeans.seed n k) n k) :
    Faultless (kmeans.clustering sampler) fun found ↦ ∃ task community,
      kmeans.Poses task ∧ 0 < task.dimension ∧ found.Describes task kmeans.ranges community := by
  unfold clustering
  dsimp only
  split_ifs with hfew
  · exact .error rfl
  refine (faultless_task hview).bind fun task hposes ↦ ?_
  obtain ⟨hvalid, hcount, centroids, hcentroids, hsize⟩ :=
    hposes.exists_firstCentroids hk (Nat.le_of_not_lt hfew) hsampler
  rw [hcentroids]
  obtain ⟨herrors, hresults⟩ := ClusterTask.run_spec hvalid hcount hsize
    (fun i ↦ kmeans.maxIterations ≤ i) (isSettled kmeans.deltaThreshold kmeans.view.nodeCount)
    (decide_eq_false (Nat.not_le_of_lt hiterations)) (decide_eq_true le_rfl) hbound
    kmeans.concurrency kmeans.isTerminated
  refine ⟨fun error herror ↦ ?_, fun found hfound ↦ ?_⟩
  · rw [herrors error herror]
    rfl
  · obtain ⟨community, hdescribes⟩ := hresults found hfound
    rw [hposes.count_eq] at hdescribes
    exact ⟨task, community, hposes, hvalid.dimension_pos, hdescribes⟩

/-- The cluster of a node in the last run. -/
def community (kmeans : KMeans) (node : Nat) : Nat := kmeans.communities.getD node 0

/-- The centroid of a cluster in the last run. -/
def centroid (kmeans : KMeans) (cluster : Nat) : Point Float := kmeans.centroids.getD cluster []

/-- Every node is in exactly one of the clusters. -/
theorem sum_sizes (h : ∀ cluster ∈ kmeans.communities, cluster < kmeans.centroids.length) :
    kmeans.sizes.sum = kmeans.communities.size := by
  have hcount := Multiset.sum_count_eq_card (s := (List.range kmeans.centroids.length).toFinset)
    (m := kmeans.communities.toList) fun cluster hcluster ↦ by
      rw [List.mem_toFinset, List.mem_range]
      exact h cluster (Array.mem_toList_iff.mp hcluster)
  simp only [List.sum_toFinset _ List.nodup_range, Multiset.coe_count, Multiset.coe_card,
    Array.length_toList] at hcount
  exact hcount

/-- The clusters that `after` has found belong to the nodes and settings of `kmeans`, and to its own
centroids. -/
structure Finds (kmeans after : KMeans) (dimension : Nat) : Prop where
  length_point : ∀ node < kmeans.view.nodeCount, (kmeans.point node).length = dimension
  size_communities : after.communities.size = kmeans.view.nodeCount
  community_lt : ∀ node < kmeans.view.nodeCount, after.community node < kmeans.k
  length_sizes : after.sizes.length = kmeans.k
  sum_sizes : after.sizes.sum = kmeans.view.nodeCount
  length_centroids : after.centroids.length = kmeans.k
  length_centroid : ∀ cluster < kmeans.k, (after.centroid cluster).length = dimension
  flatMap_ranges : kmeans.ranges.flatMap NodeRange.nodes = List.range kmeans.view.nodeCount
  centroid_eq : ∀ node < kmeans.view.nodeCount, after.centroid (after.community node) =
    (List.range dimension).map
      (clusterMean kmeans.point after.community kmeans.ranges (after.community node))
  size_distances : after.distances.size = kmeans.view.nodeCount
  distances_eq : ∀ node < kmeans.view.nodeCount, after.distances[node]? = some (Float.sqrt
    ((kmeans.point node).squaredDistance (after.centroid (after.community node))))

theorem finds_of_describes {task : ClusterTask Float} {found : Clustering Float}
    {community : Nat → Nat} (hposes : kmeans.Poses task)
    (hfound : found.Describes task kmeans.ranges community) {after : KMeans}
    (hcommunities : after.communities = found.communities)
    (hcentroids : after.centroids = found.centroids)
    (hdistances : after.distances = found.distances) : kmeans.Finds after task.dimension := by
  obtain ⟨hcount, hk, _, _, hlength, hpoint⟩ := hposes
  have hsplit : kmeans.ranges.flatMap NodeRange.nodes = List.range kmeans.view.nodeCount :=
    flatMap_rangePartition _ _ _
  rw [← hcount] at hsplit
  have hcommunity : ∀ node < task.count, after.community node = community node := by
    intro node hnode
    rw [KMeans.community, hcommunities, hfound.getD_communities hnode]
  have hcentroid (cluster : Nat) : after.centroid cluster = found.centroids.getD cluster [] := by
    rw [centroid, hcentroids]
  have hclusters : after.centroids.length = task.k := hcentroids ▸ hfound.length_centroids
  have hsize : after.communities.size = task.count := hcommunities ▸ hfound.size_communities
  have hmeans : clusterMean task.point community kmeans.ranges =
      clusterMean kmeans.point after.community kmeans.ranges := by
    refine clusterMean_congr (fun node hnode ↦ ?_) fun node hnode ↦ ?_ <;>
      rw [hsplit, List.mem_range] at hnode
    · exact hpoint node hnode
    · exact (hcommunity node hnode).symm
  constructor <;> simp only [← hcount, ← hk]
  · exact hlength
  · exact hsize
  · intro node hnode
    rw [hcommunity node hnode]
    exact hfound.community_lt node hnode
  · rw [sizes, List.length_map, List.length_range, hclusters]
  · rw [KMeans.sum_sizes, hsize]
    exact fun cluster hmem ↦ hclusters ▸ hfound.lt_of_mem (hcommunities ▸ hmem)
  · exact hclusters
  · exact fun cluster hcluster ↦ hcentroid cluster ▸ hfound.length_getD_centroids hcluster
  · exact hsplit
  · intro node hnode
    rw [hcentroid, hcommunity node hnode, ← hmeans]
    exact hfound.getD_centroids hsplit hnode
  · exact hdistances ▸ hfound.size_distances
  · intro node hnode
    rw [hdistances, hcentroid, hcommunity node hnode, ← hpoint node hnode]
    exact hfound.getElem?_distances hnode

end KMeans

/-- Every view that can be obtained has the data of its nodes. On such a view k-means is never at
fault: it reads and writes inside of its arrays, and divides or cuts by no zero. Whatever stops it,
the clusters that it finds are consistent with its centroids. -/
theorem clusters_are_consistent {kmeans : KMeans} {sampler : Sampler} (hk : 0 < kmeans.k)
    (hiterations : 0 < kmeans.maxIterations) (hbound : kmeans.maxIterations < UInt64.size)
    (hsampler : ∀ n k, k ≤ n → Sample.Valid (sampler kmeans.seed n k) n k) :
    (kmeans.view.Obtained → kmeans.view.NodesComplete) ∧
      (kmeans.view.NodesComplete →
        (∀ error, (kmeans.runWith sampler).2 = .error error → error.fault? = none) ∧
        ∀ after, kmeans.runWith sampler = (after, .ok ()) →
          ∃ dimension, 0 < dimension ∧ kmeans.Finds after dimension) := by
  refine ⟨View.Obtained.nodesComplete, fun hview ↦ ?_⟩
  obtain ⟨herrors, hresults⟩ :=
    KMeans.faultless_clustering hview hk hiterations hbound hsampler
  unfold KMeans.runWith
  cases hclustering : kmeans.clustering sampler with
  | error error =>
    refine ⟨fun other hother ↦ ?_, fun _ hafter ↦ nomatch (Prod.mk.inj hafter).2⟩
    rw [← Except.error.inj hother]
    exact herrors error hclustering
  | ok found =>
    refine ⟨nofun, fun after hafter ↦ ?_⟩
    obtain ⟨rfl, _⟩ := Prod.mk.inj hafter
    obtain ⟨task, community, hposes, hpositive, hdescribes⟩ := hresults found hclustering
    exact ⟨task.dimension, hpositive, KMeans.finds_of_describes hposes hdescribes rfl rfl rfl⟩

/-- Three nodes on a line, to be divided into two clusters. -/
def threeOnALine : KMeans :=
  let view : View := .packed {
    ids := ⟨.ofList [(7, 0), (5, 1), (9, 2)], #[7, 5, 9], ∅⟩
    columns := (∅ : Std.TreeMap String Column).insert "place" (.double #[1.0, 2.0, 6.0])
    topology := none
    values := none
    relationshipCount := 0
    isUndirected := false
    hasValues := false
    canRelease := true
    blockTable := 0 }
  { KMeans.new view "place" with k := 2 }

/-- The nodes were put together without relationships, and the view has released their lists. -/
theorem obtained_threeOnALine : threeOnALine.view.Obtained := by
  let base := threeOnALine.view.base
  let lists : Topology :=
    ⟨⟨⟨2, by decide, by decide⟩, #[]⟩, ⟨.replicate 3 ⟨0, 0⟩⟩, 0, .natural, none⟩
  let release (base : PackedView) : PackedView := { base with topology := none }
  have hchecked : PackedView.ofBlocks base.ids base.columns ⟨lists, none⟩ 0 0 =
      .ok { base with topology := some ⟨lists, .exhausted⟩ } := rfl
  exact .updated (f := release) (.checked hchecked) (fun _ ↦ rfl) fun _ ↦ rfl

theorem clusters_of_three_on_a_line_are_consistent :
    let run := threeOnALine.runWith Sample.ofSeed
    threeOnALine.view.Obtained ∧ run.2 = .ok () ∧ run.1.communities = #[0, 0, 1] ∧
      ∃ dimension, 0 < dimension ∧ threeOnALine.Finds run.1 dimension := by
  have hsuccess : (threeOnALine.runWith Sample.ofSeed).2 = .ok () := by decide +kernel
  have hcommunities : (threeOnALine.runWith Sample.ofSeed).1.communities = #[0, 0, 1] := by
    decide +kernel
  have hclusters := @clusters_are_consistent threeOnALine Sample.ofSeed (by decide) (by decide)
    (by decide) fun _ _ hk ↦ Sample.valid_ofSeed _ hk
  have hcomplete := hclusters.1 obtained_threeOnALine
  have hfinds := (hclusters.2 hcomplete).2 _ (Prod.ext rfl hsuccess)
  exact ⟨obtained_threeOnALine, hsuccess, hcommunities, hfinds⟩

end PackedGraph
