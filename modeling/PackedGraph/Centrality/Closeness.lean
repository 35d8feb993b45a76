import PackedGraph.Centrality.SharedVisit
import PackedGraph.Iteration.Failure

/-!
# Closeness centrality

The farness of a node is the sum of its distances from the nodes that reach it, and its component
is the number of those nodes. The closeness of a node is its component divided by its farness.
-/

namespace PackedGraph

/-- The step that visits the graph from a range of sources. -/
structure ClosenessStep where
  view : View
  sources : NodeRange
  visit : SharedVisit

structure ClosenessWorld where
  farness : Array UInt64
  component : Array UInt64
  isTerminated : Bool

namespace ClosenessStep

/-- Adds the distances of an arrival to the counters of its node. -/
def addArrival (world : ClosenessWorld) (arrival : Arrival) : ClosenessWorld :=
  let distance := UInt64.ofNat arrival.sources * UInt64.ofNat arrival.depth
  { world with
    farness := world.farness.modify arrival.node (· + distance)
    component := world.component.modify arrival.node (· + UInt64.ofNat arrival.sources) }

/-- Visits the graph from some groups of sources. -/
def visitGroups (step : ClosenessStep) (world : ClosenessWorld) :
    List NodeRange → ClosenessStep × ClosenessWorld × Except StepFailure Unit
  | [] => (step, world, .ok ())
  | group :: groups =>
    let (view, visit, result) := step.visit.run step.view group
    let step := { step with view, visit }
    match result with
    | .error error => (step, world, .error (.ofRead (.visitingFrom group.start) error))
    | .ok arrivals => visitGroups step (arrivals.foldl addArrival world) groups

def compute (step : ClosenessStep) (world : ClosenessWorld) :
    ClosenessStep × ClosenessWorld × Except StepFailure Bool :=
  let step := { step with visit := step.visit.resize step.view.nodeCount }
  let (step, world, result) := step.visitGroups world (step.sources.split sourcesPerVisit)
  (step, world, result.map fun _ ↦ false)

def computation : Computation ClosenessStep ClosenessWorld StepFailure where
  compute _ step world := step.compute world
  release step := { step with visit := .blank }
  barrier _ steps world := (steps, world, .ok .halt)
  isTerminated := ClosenessWorld.isTerminated

end ClosenessStep

/-- Closeness centrality on a view, with its settings and what the last run has found. -/
structure Closeness where
  view : View
  /-- Whether the centrality of a node is multiplied by the share of other nodes that reach it. -/
  wassermanFaust : Bool
  concurrency : Nat
  isTerminated : Bool
  farness : Array UInt64
  component : Array UInt64
  centrality : Array Float

namespace Closeness

def new (view : View) : Closeness where
  view
  wassermanFaust := false
  concurrency := 1
  isTerminated := false
  farness := #[]
  component := #[]
  centrality := #[]

def setConcurrency (closeness : Closeness) (concurrency : Nat) : Except SettingError Closeness :=
  if concurrency = 0 then .error .noThreads else .ok { closeness with concurrency }

/-- The farness and the component of every node. -/
def distances (view : View) (concurrency : Nat) (isTerminated : Bool) :
    Except AlgorithmError (Array UInt64 × Array UInt64) := do
  let count := view.nodeCount
  let ranges := rangePartition count (batchCount concurrency) sourcesPerVisit
  let steps := ranges.map fun range ↦ ⟨view.fresh, range, .blank⟩
  let zeros := Array.replicate count 0
  let ended := ClosenessStep.computation.run (1 ≤ ·) steps ⟨zeros, zeros, isTerminated⟩
  discard (ended.result.mapError .run)
  return (ended.world.farness, ended.world.component)

/-- The centrality of a node, given the number of other nodes. -/
def centralityOf (wassermanFaust : Bool) (others : Nat) (farness component : UInt64) : Float :=
  if farness = 0 then 0.0
  else
    let centrality := component.toFloat / farness.toFloat
    if wassermanFaust then centrality * (component.toFloat / Float.ofNat others) else centrality

/-- Computes the centralities. A run that fails keeps those of earlier runs. -/
def run (closeness : Closeness) : Closeness × Except AlgorithmError Unit :=
  match distances closeness.view closeness.concurrency closeness.isTerminated with
  | .error error => (closeness, .error error)
  | .ok (farness, component) =>
    let others := closeness.view.nodeCount - 1
    let centrality := farness.zipWith (centralityOf closeness.wassermanFaust others) component
    ({ closeness with farness, component, centrality }, .ok ())

end Closeness

end PackedGraph
