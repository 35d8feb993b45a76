import PackedGraph.Clustering.Slices
import PackedGraph.Iteration.Failure
import PackedGraph.Iteration.Partition
import PackedGraph.Iteration.Scalar

/-!
# Moving centroids

Points are assigned to the nearest of some centroids, and the centroids are then moved to the
means of their points, again and again. A centroid without points stays where it is. The nodes are
split into ranges, with a step for each of them that adds up the points of its range. Points,
centroids and sums stand in arrays, each of them as a slice of as many elements as it has
coordinates.
-/

namespace PackedGraph

/-- The coordinates of a point. -/
abbrev Point (R : Type) := List R

variable {R : Type} [Scalar R]

def Point.squaredDistance (a b : Point R) : R :=
  Scalar.total (a.zipWith (fun x y ↦ Scalar.mul (Scalar.sub x y) (Scalar.sub x y)) b)

/-- The nearest centroid so far, with its squared distance unless that is infinite. -/
structure Nearest (R : Type) where
  cluster : Nat
  distance : Option R

/-- Whether a distance beats the smallest one so far. -/
def Nearest.isBeatenBy (nearest : Nearest R) (distance : R) : Bool :=
  match nearest.distance with
  | none => Scalar.isBelowInfinity distance
  | some smallest => Scalar.lt distance smallest

/-- The first of the nearest centroids of a point. -/
def nearestCluster (centroids : List (Point R)) (point : Point R) : Nat :=
  (centroids.zipIdx.foldl (fun (nearest : Nearest R) (centroid, cluster) ↦
    let distance := point.squaredDistance centroid
    if nearest.isBeatenBy distance then ⟨cluster, some distance⟩ else nearest) ⟨0, none⟩).cluster

/-- The step that assigns the points of a range of nodes. -/
structure ClusterStep (R : Type) where
  range : NodeRange
  dimension : Nat
  centroids : Array R
  /-- The sums of the points assigned to each cluster in the last iteration. -/
  sums : Array R
  sizes : Array Nat
  /-- The number of nodes that changed their cluster in the last iteration. -/
  swaps : Nat

structure ClusterWorld (R : Type) where
  points : Array R
  /-- The cluster of each node, once there is one. -/
  communities : Array (Option Nat)
  centroids : Array R
  isTerminated : Bool

namespace ClusterStep

/-- Assigns a node to the nearest centroid. -/
def assign (step : ClusterStep R) (world : ClusterWorld R) (node : Nat) :
    Except Fault (ClusterStep R × ClusterWorld R) := do
  let point ← Slices.read world.points (node * step.dimension) step.dimension
  let cluster := nearestCluster (← Slices.chunks step.centroids step.dimension) point
  let isSwap := (← Column.element world.communities node) != some cluster
  let communities ← Column.replace world.communities node (some cluster)
  let sizes ← Column.replace step.sizes cluster ((← Column.element step.sizes cluster) + 1)
  let sums ← Slices.combine Scalar.add step.sums (cluster * step.dimension) step.dimension point
  let swaps := if isSwap then step.swaps + 1 else step.swaps
  return ({ step with sums, sizes, swaps }, { world with communities })

/-- Forgets the sums of the last iteration. -/
def clear (step : ClusterStep R) : ClusterStep R :=
  { step with
    sums := step.sums.map fun _ ↦ Scalar.zero
    sizes := step.sizes.map fun _ ↦ 0
    swaps := 0 }

def compute (step : ClusterStep R) (world : ClusterWorld R) :
    Except Fault (ClusterStep R × ClusterWorld R) :=
  step.range.nodes.foldlM (fun (step, world) node ↦ step.assign world node) (step.clear, world)

/-- Moves a coordinate of a centroid to the mean of `size` points. -/
def moveCoordinate (steps : List (ClusterStep R)) (size cell : Nat) (centroids : Array R) :
    Except Fault (Array R) := do
  let parts ← steps.mapM fun step ↦ Column.element step.sums cell
  Column.replace centroids cell (Scalar.div (Scalar.total parts) (Scalar.ofNat size))

/-- Moves a centroid to the mean of the points assigned to it, unless there are none. -/
def moveCentroid (steps : List (ClusterStep R)) (dimension : Nat) (centroids : Array R)
    (cluster : Nat) : Except Fault (Array R) := do
  let sizes ← steps.mapM fun step ↦ Column.element step.sizes cluster
  let size := sizes.foldl (· + ·) 0
  if size = 0 then return centroids
  (List.range dimension).foldlM (fun centroids d ↦
    moveCoordinate steps size (cluster * dimension + d) centroids) centroids

def moveCentroids (steps : List (ClusterStep R)) (dimension : Nat) (centroids : Array R) :
    Except Fault (Array R) := do
  let k ← Slices.quotient centroids.size dimension
  (List.range k).foldlM (moveCentroid steps dimension) centroids

/-- Gives a step the centroids of the next iteration. -/
def setCentroids (step : ClusterStep R) (centroids : Array R) : Except Fault (ClusterStep R) := do
  let centroids ← Slices.copy step.centroids 0 step.centroids.size centroids.toList
  return { step with centroids }

/-- The computation of clusters, which halts when few enough nodes change their cluster. -/
def computation (dimension : Nat) (isSettled : (swaps : Nat) → Bool) :
    Computation (ClusterStep R) (ClusterWorld R) StepFailure where
  compute _ step world :=
    match step.compute world with
    | .ok (step, world) => (step, world, .ok (0 < step.swaps))
    | .error fault => (step, world, .error (.broken fault))
  release step := { step with centroids := #[], sums := #[], sizes := #[] }
  barrier _ steps world :=
    let swaps := (steps.map ClusterStep.swaps).foldl (· + ·) 0
    let moved : Except Fault (List (ClusterStep R) × ClusterWorld R) := do
      let centroids ← moveCentroids steps dimension world.centroids
      let steps ← steps.mapM fun step ↦ step.setCentroids centroids
      return (steps, { world with centroids })
    match moved with
    | .ok (steps, world) => (steps, world, .ok (if isSettled swaps then .halt else .proceed))
    | .error fault => (steps, world, .error (.broken fault))
  isTerminated := ClusterWorld.isTerminated

end ClusterStep

/-- What clustering some points gives. -/
structure Clustering (R : Type) where
  communities : Array Nat
  centroids : List (Point R)
  distances : Array R
  outcome : Outcome

/-- Points to cluster, and the number of clusters. -/
structure ClusterTask (R : Type) where
  count : Nat
  k : Nat
  dimension : Nat
  points : Array R

namespace ClusterTask

/-- The steps that cluster points around centroids. -/
def steps (task : ClusterTask R) (concurrency : Nat) (centroids : Array R) :
    List (ClusterStep R) :=
  (rangePartition task.count (batchCount concurrency) 1).map fun range ↦ {
    range, centroids
    dimension := task.dimension
    sums := .replicate (task.k * task.dimension) Scalar.zero
    sizes := .replicate task.k 0
    swaps := 0 }

/-- The cluster of a node at the end of a run. -/
def assigned : Option Nat → Except Fault Nat
  | some cluster => .ok cluster
  | none => .error .outOfBounds

/-- The distance of a node from the centroid of its cluster. -/
def distance (task : ClusterTask R) (centroids : Array R) (cluster node : Nat) :
    Except Fault R := do
  let point : Point R ← Slices.read task.points (node * task.dimension) task.dimension
  let centroid ← Slices.read centroids (cluster * task.dimension) task.dimension
  return Scalar.sqrt (point.squaredDistance centroid)

/-- What is found at the end of a run. -/
def found (task : ClusterTask R) (world : ClusterWorld R) (outcome : Outcome) :
    Except Fault (Clustering R) := do
  let communities ← world.communities.toList.mapM assigned
  let distances ← communities.zipIdx.mapM fun (cluster, node) ↦
    task.distance world.centroids cluster node
  let centroids ← Slices.chunks world.centroids task.dimension
  return {
    centroids, outcome
    communities := communities.toArray
    distances := distances.toArray }

/-- Clusters points, given the centroids to start with. -/
def run (task : ClusterTask R) (centroids : Array R) (stops isSettled : Nat → Bool)
    (concurrency : Nat) (isTerminated : Bool) : Except AlgorithmError (Clustering R) := do
  let world := {
    centroids, isTerminated
    points := task.points
    communities := .replicate task.count none }
  let ended := (ClusterStep.computation task.dimension isSettled).run stops
    (task.steps concurrency centroids) world
  let outcome ← ended.result.mapError .run
  (task.found ended.world outcome).mapError .broken

end ClusterTask

end PackedGraph
