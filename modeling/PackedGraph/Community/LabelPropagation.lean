import PackedGraph.Community.LabelProgram
import PackedGraph.Community.VoteTally
import PackedGraph.Iteration.Failure
import PackedGraph.Iteration.Partition
import PackedGraph.Iteration.StopRule
import PackedGraph.View.Enumeration

/-!
# Label propagation

Every node starts with a label: its seed, or a label of its own. In an iteration every node takes
the label that wins the votes of its relationships, where a vote weighs the value of the
relationship times the weight of its target. The nodes are split into ranges, with a step for each
of them. A step sees the labels of its own range as they are changed, and those of other ranges as
they were before the iteration, so the order in which the steps run makes no difference.
-/

namespace PackedGraph

/-- The step that propagates labels to the nodes of a range. -/
structure PropagationStep where
  view : View
  range : NodeRange
  nodeWeights : Option Column

structure PropagationWorld where
  buffers : LabelBuffers
  isTerminated : Bool

namespace PropagationStep

/-- The weight of the votes for the label of a node, which is one unless the node has another. -/
def nodeWeight (step : PropagationStep) (node : Nat) : Except Fault Float :=
  match step.nodeWeights with
  | none => .ok 1.0
  | some column => (column.doubleValue node).map (·.getD 1.0)

/-- Copies the labels of some nodes to the buffer that the iteration writes. -/
def copyLabels (iteration : Nat) : List Nat → LabelProgram StepFailure Unit
  | [] => pure ()
  | node :: nodes => do
    let label ← .readCell (.before iteration) node
    .writeCell (.after iteration) node label
    copyLabels iteration nodes

/-- Counts the votes of relationships, given by their targets and values. -/
def countVotes (step : PropagationStep) (iteration : Nat) (tally : VoteTally) :
    List (Nat × ValueBits) → LabelProgram StepFailure VoteTally
  | [] => pure tally
  | (target, value) :: rest => do
    let buffer := if step.range.contains target then .after iteration else .before iteration
    let label ← .readCell buffer target
    match step.nodeWeight target with
    | .error fault => .fail (.broken fault)
    | .ok weight => countVotes step iteration (tally.vote label (Float.ofBits value * weight)) rest

/-- Gives some nodes the labels that win their votes. Returns the view after reading from it, and
whether a label changed. -/
def adoptLabels (step : PropagationStep) (iteration : Nat) (view : View) (changed : Bool) :
    List Nat → LabelProgram StepFailure (View × Bool)
  | [] => pure (view, changed)
  | node :: nodes => do
    let visit := view.relationshipsWithValues node .one none
    let tally ← countVotes step iteration [] visit.state
    match visit.outcome with
    | .error error => .fail (.ofRead (.enumerating node) error)
    | .ok () =>
      let label ← .readCell (.after iteration) node
      let winner := tally.winner label
      if winner = label then adoptLabels step iteration visit.reader changed nodes
      else
        .writeCell (.after iteration) node winner
        adoptLabels step iteration visit.reader true nodes

/-- The accesses of a step to the label buffers in an iteration. -/
def program (step : PropagationStep) (iteration : Nat) :
    LabelProgram StepFailure (View × Bool) := do
  copyLabels iteration step.range.nodes
  step.adoptLabels iteration step.view false step.range.nodes

def compute (iteration : Nat) (step : PropagationStep) (world : PropagationWorld) :
    PropagationStep × PropagationWorld × Except StepFailure Bool :=
  let (buffers, result) := (step.program iteration).run .broken world.buffers
  let world := { world with buffers }
  match result with
  | .ok (view, changed) => ({ step with view }, world, .ok changed)
  | .error error => (step, world, .error error)

/-- The computation of propagation steps, whose barrier does nothing. -/
def computation : Computation PropagationStep PropagationWorld StepFailure where
  compute := compute
  release := id
  barrier _ steps world := (steps, world, .ok .proceed)
  isTerminated := PropagationWorld.isTerminated

end PropagationStep

/-- Label propagation on a view, with its settings and what the last run has found. -/
structure LabelPropagation where
  view : View
  seedKey : Option String
  weightKey : Option String
  concurrency : Nat
  isTerminated : Bool
  labels : Array UInt64
  outcome : Option Outcome

namespace LabelPropagation

def new (view : View) : LabelPropagation where
  view
  seedKey := none
  weightKey := none
  concurrency := 1
  isTerminated := false
  labels := #[]
  outcome := none

def setConcurrency (propagation : LabelPropagation) (concurrency : Nat) :
    Except SettingError LabelPropagation :=
  if concurrency = 0 then .error .noThreads else .ok { propagation with concurrency }

/-- The label of the node with an original id. -/
def labelOfOriginal (propagation : LabelPropagation) (original : UInt64) : Option UInt64 :=
  (propagation.view.node? original).bind (propagation.labels[·]?)

def communityCount (propagation : LabelPropagation) : Nat :=
  propagation.labels.toList.eraseDups.length

def iterations (propagation : LabelPropagation) : Nat :=
  propagation.outcome.elim 0 Outcome.iterations

def didConverge (propagation : LabelPropagation) : Bool :=
  propagation.outcome.any Outcome.didConverge

/-- The seeds of some nodes. -/
def readSeeds (column : Column) : List Nat → Except AlgorithmError (List (Option Nat))
  | [] => .ok []
  | node :: nodes => do
    let seed ← match column.longValue node with
      | .error fault => .error (.broken fault)
      | .ok none => .ok none
      | .ok (some seed) =>
        if seed < 0 then .error (.input (.negativeSeed seed node)) else .ok (some seed.toNat)
    return seed :: (← readSeeds column nodes)

/-- The labels of nodes with the given seeds. A node without a seed gets a label of its own that is
larger than all seeds. -/
def seedLabels (seeds : List (Option Nat)) : Array UInt64 :=
  let firstFresh := (seeds.filterMap (·.map (· + 1))).foldl max 0
  (seeds.zipIdx.map fun (seed, node) ↦ UInt64.ofNat (seed.getD (firstFresh + node))).toArray

def initialLabels (propagation : LabelPropagation) : Except AlgorithmError (Array UInt64) := do
  let nodes := List.range propagation.view.nodeCount
  match propagation.seedKey with
  | none => return (nodes.map UInt64.ofNat).toArray
  | some key =>
    let seeds ← (propagation.view.columnFor .seed key).mapError .input
    return seedLabels (← readSeeds seeds nodes)

/-- The labels and the outcome of a run. -/
def propagate (propagation : LabelPropagation) (stops : Nat → Bool) :
    Except AlgorithmError (Array UInt64 × Outcome) := do
  let view := propagation.view
  let nodeWeights ← (propagation.weightKey.mapM (view.columnFor .nodeWeight)).mapError .input
  let labels ← propagation.initialLabels
  let ranges ← (degreePartition view propagation.concurrency).mapError .broken
  let steps := ranges.map fun range ↦ ⟨view.fresh, range, nodeWeights⟩
  let ended := PropagationStep.computation.run stops steps
    ⟨⟨labels, labels⟩, propagation.isTerminated⟩
  let outcome ← ended.result.mapError .run
  return (ended.world.buffers.labels (.before outcome.iterations), outcome)

/-- Propagates labels until nothing changes or a rule stops it. A run that fails keeps the labels
of earlier runs, but not their outcome. -/
def run (propagation : LabelPropagation) (stops : Nat → Bool) :
    LabelPropagation × Except AlgorithmError Unit :=
  match propagation.propagate stops with
  | .ok (labels, outcome) => ({ propagation with labels, outcome := some outcome }, .ok ())
  | .error error => ({ propagation with outcome := none }, .error error)

end LabelPropagation

end PackedGraph
