import PackedGraph.Clustering.Centroids
import PackedGraph.Iteration.Failure
import PackedGraph.Random.Sample

/-!
# K-means clustering

Nodes are points, given by a property of numbers or arrays, and are divided into `k` clusters. The
first centroids are the points of a random sample of nodes. The clusters are final when no node,
or a small enough fraction of the nodes, changes its cluster in an iteration, or when a maximum
number of iterations is reached.
-/

namespace PackedGraph

/-- K-means clustering of a view, with its settings and what the last run has found. -/
structure KMeans where
  view : View
  key : String
  k : Nat
  maxIterations : Nat
  deltaThreshold : Float
  seed : UInt64
  concurrency : Nat
  isTerminated : Bool
  communities : Array Nat
  distances : Array Float
  centroids : List (Point Float)
  outcome : Option Outcome

namespace KMeans

def new (view : View) (key : String) : KMeans where
  view
  key
  k := 10
  maxIterations := 10
  deltaThreshold := 0.05
  seed := 0
  concurrency := 1
  isTerminated := false
  communities := #[]
  distances := #[]
  centroids := []
  outcome := none

/-! ## Settings -/

def setClusters (kmeans : KMeans) (k : Nat) : Except SettingError KMeans :=
  if k = 0 then .error .noClusters else .ok { kmeans with k }

def setMaxIterations (kmeans : KMeans) (maxIterations : Nat) : Except SettingError KMeans :=
  if maxIterations = 0 then .error .noIterations else .ok { kmeans with maxIterations }

/-- Sets the fraction of nodes that may change their cluster in the last iteration. -/
def setDeltaThreshold (kmeans : KMeans) (threshold : Float) : Except SettingError KMeans :=
  if 0.0 ≤ threshold && threshold ≤ 1.0 then .ok { kmeans with deltaThreshold := threshold }
  else .error (.deltaThreshold threshold)

def setConcurrency (kmeans : KMeans) (concurrency : Nat) : Except SettingError KMeans :=
  if concurrency = 0 then .error .noThreads else .ok { kmeans with concurrency }

/-! ## Results -/

/-- The average distance of a node from the centroid of its cluster, or zero without nodes. -/
def averageDistance (kmeans : KMeans) : Float :=
  if kmeans.distances.isEmpty then 0.0
  else Scalar.total kmeans.distances.toList / Float.ofNat kmeans.distances.size

/-- The number of nodes of each cluster. -/
def sizes (kmeans : KMeans) : List Nat :=
  (List.range kmeans.centroids.length).map kmeans.communities.toList.count

def iterations (kmeans : KMeans) : Nat := kmeans.outcome.elim 0 Outcome.iterations

def didConverge (kmeans : KMeans) : Bool := kmeans.outcome.any Outcome.didConverge

/-! ## Running -/

/-- Reads the points of some nodes, which must all have the same dimension, behind those that have
been read before. -/
def readPoints (kmeans : KMeans) (column : Column) (points : Array Float)
    (dimension : Option Nat) : List Nat → Except AlgorithmError (Array Float × Option Nat)
  | [] => .ok (points, dimension)
  | node :: nodes => do
    match ← (column.arrayValue node).mapError .broken with
    | none =>
      let original ← (kmeans.view.original node).mapError .broken
      throw (.input (.missingPoint original kmeans.key))
    | some values =>
      let expected := dimension.getD values.size
      if values.size ≠ expected then
        let original ← (kmeans.view.original node).mapError .broken
        throw (.input (.pointDimension original values.size kmeans.key expected))
      kmeans.readPoints column (points ++ values) (some expected) nodes

/-- The points of all nodes, and how many clusters to divide them into. -/
def task (kmeans : KMeans) : Except AlgorithmError (ClusterTask Float) := do
  let count := kmeans.view.nodeCount
  let column ← (kmeans.view.columnFor .point kmeans.key).mapError .input
  let (points, dimension) ← kmeans.readPoints column #[] none (List.range count)
  return { count, points, k := kmeans.k, dimension := dimension.getD 0 }

/-- The points of a sample of nodes. -/
def firstCentroids (task : ClusterTask Float) (sample : List Nat) : Except Fault (Array Float) :=
  sample.zipIdx.foldlM (fun centroids (node, cluster) ↦ do
    let point ← Slices.read task.points (node * task.dimension) task.dimension
    Slices.copy centroids (cluster * task.dimension) task.dimension point)
    (.replicate (task.k * task.dimension) 0.0)

/-- Whether at most the given fraction of the nodes changed their cluster. -/
def isSettled (threshold : Float) (nodeCount swaps : Nat) : Bool :=
  Float.ofNat swaps / Float.ofNat nodeCount ≤ threshold

/-- Clusters the nodes. The sampler chooses `k` of the nodes with a seed. -/
def clustering (kmeans : KMeans) (sampler : Sampler) :
    Except AlgorithmError (Clustering Float) := do
  let count := kmeans.view.nodeCount
  if count < kmeans.k then throw (.input (.tooManyClusters kmeans.k count))
  let task ← kmeans.task
  let centroids ← (firstCentroids task (sampler kmeans.seed count kmeans.k)).mapError .broken
  task.run centroids (kmeans.maxIterations ≤ ·) (isSettled kmeans.deltaThreshold count)
    kmeans.concurrency kmeans.isTerminated

/-- Clusters the nodes. A run that fails keeps the clusters of earlier runs, but not their
outcome. -/
def runWith (kmeans : KMeans) (sampler : Sampler) : KMeans × Except AlgorithmError Unit :=
  match kmeans.clustering sampler with
  | .ok found =>
    ({ kmeans with
        communities := found.communities
        distances := found.distances
        centroids := found.centroids
        outcome := some found.outcome }, .ok ())
  | .error error => ({ kmeans with outcome := none }, .error error)

/-- Clusters the nodes around a random sample. -/
def run (kmeans : KMeans) : KMeans × Except AlgorithmError Unit := kmeans.runWith Sample.ofSeed

end KMeans

end PackedGraph
