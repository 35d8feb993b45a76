import PackedGraph.Iteration.Failure
import PackedGraph.Iteration.Partition
import PackedGraph.Iteration.Scalar
import PackedGraph.View.Enumeration

/-!
# Conductance of communities

An integer property assigns nodes to communities. The conductance of a community is the weight of
the relationships that leave it divided by the weight of all relationships that start in it. Nodes
without a community, and relationships to them, do not count.
-/

namespace PackedGraph

/-- The weight of the relationships that start in a community, by where they end. -/
structure CommunityWeights (R : Type) where
  internal : R
  external : R

/-- The conductance of a community, unless no weight starts in it. -/
def CommunityWeights.conductance (weights : CommunityWeights Float) : Option Float :=
  let total := weights.internal + weights.external
  if 0.0 < total then some (weights.external / total) else none

/-- Weights by community, in the order of the communities. -/
abbrev WeightMap (R : Type) := Std.TreeMap Int (CommunityWeights R)

variable {R : Type} [Scalar R]

namespace WeightMap

def weightsOf (weights : WeightMap R) (community : Int) : CommunityWeights R :=
  weights.getD community ⟨Scalar.zero, Scalar.zero⟩

/-- Adds weights to those of a community. -/
def addWeights (weights : WeightMap R) (community : Int) (more : CommunityWeights R) :
    WeightMap R :=
  let old := weights.weightsOf community
  weights.insert community
    ⟨Scalar.add old.internal more.internal, Scalar.add old.external more.external⟩

end WeightMap

/-- The step that adds up the weights of the relationships of a range of nodes. -/
structure ConductanceStep (R : Type) where
  view : View
  range : NodeRange
  communities : Column
  weights : WeightMap R

namespace ConductanceStep

/-- Adds a relationship from a community to the weights of that community. -/
def addRelationship (weigh : Float → R) (communities : Column) (community : Int)
    (weights : CommunityWeights R) (target : Nat) (value : ValueBits) :
    Response (CommunityWeights R) :=
  match communities.longValue target with
  | .error fault => .broken fault
  | .ok none => .more weights
  | .ok (some other) =>
    if other = community then
      .more { weights with internal := Scalar.add weights.internal (weigh (Float.ofBits value)) }
    else .more { weights with external := Scalar.add weights.external (weigh (Float.ofBits value)) }

/-- Adds up the relationships of some nodes. -/
def gather (weigh : Float → R) (step : ConductanceStep R) :
    List Nat → Except StepFailure (ConductanceStep R)
  | [] => .ok step
  | node :: nodes =>
    match step.communities.longValue node with
    | .error fault => .error (.broken fault)
    | .ok none => gather weigh step nodes
    | .ok (some community) =>
      let visit := step.view.visitWithValues node .one
        (addRelationship weigh step.communities community) (step.weights.weightsOf community)
      match visit.result with
      | .error error => .error (.ofRead (.enumerating node) error)
      | .ok weights =>
        gather weigh
          { step with view := visit.reader, weights := step.weights.insert community weights } nodes

/-- The computation of conductance steps, whose world is the termination flag. -/
def computation (weigh : Float → R) : Computation (ConductanceStep R) Bool StepFailure where
  compute _ step isTerminated :=
    match step.gather weigh step.range.nodes with
    | .ok step => (step, isTerminated, .ok false)
    | .error error => (step, isTerminated, .error error)
  release := id
  barrier _ steps isTerminated := (steps, isTerminated, .ok .halt)
  isTerminated := id

/-- Adds up the weights found by the steps. -/
def combine (steps : List (ConductanceStep R)) : WeightMap R :=
  steps.foldl (fun total step ↦
    step.weights.toList.foldl (fun total (community, weights) ↦
      total.addWeights community weights) total) ∅

end ConductanceStep

/-- The weights of all communities, in a given arithmetic. -/
def communityWeights (weigh : Float → R) (view : View) (key : String) (concurrency : Nat)
    (isTerminated : Bool) : Except AlgorithmError (WeightMap R) := do
  let communities ← (view.columnFor .community key).mapError .input
  let ranges ← (degreePartition view (batchCount concurrency)).mapError .broken
  let steps := ranges.map fun range ↦ ⟨view.fresh, range, communities, ∅⟩
  let ended := (ConductanceStep.computation weigh).run (1 ≤ ·) steps isTerminated
  discard (ended.result.mapError .run)
  return ConductanceStep.combine ended.steps

/-- The conductance of communities, with its settings and what the last run has found. -/
structure Conductance where
  view : View
  key : String
  concurrency : Nat
  isTerminated : Bool
  weights : WeightMap Float

namespace Conductance

def new (view : View) (key : String) : Conductance where
  view
  key
  concurrency := 1
  isTerminated := false
  weights := ∅

def setConcurrency (conductance : Conductance) (concurrency : Nat) :
    Except SettingError Conductance :=
  if concurrency = 0 then .error .noThreads else .ok { conductance with concurrency }

/-- The conductances of the communities that have one. -/
def conductances (conductance : Conductance) : List (Int × Float) :=
  conductance.weights.toList.filterMap fun (community, weights) ↦
    weights.conductance.map fun value ↦ (community, value)

/-- The average conductance, or zero if there is none. -/
def average (conductance : Conductance) : Float :=
  let values := conductance.conductances.map Prod.snd
  if values.isEmpty then 0.0 else Scalar.total values / Float.ofNat values.length

/-- Computes the weights. A run that fails keeps those of earlier runs. -/
def run (conductance : Conductance) : Conductance × Except AlgorithmError Unit :=
  match communityWeights id conductance.view conductance.key conductance.concurrency
      conductance.isTerminated with
  | .ok weights => ({ conductance with weights }, .ok ())
  | .error error => (conductance, .error error)

end Conductance

end PackedGraph
