import PackedGraph.Iteration.Engine
import PackedGraph.Iteration.Input

/-!
# Errors of the algorithms

An algorithm fails when its input is not what it needs, when it is interrupted, or when the graph
it reads turns out to be corrupt.
-/

namespace PackedGraph

/-- What a step was doing when the graph could not be read. -/
inductive Activity where
  | enumerating (node : Nat)
  | visitingFrom (source : Nat)
deriving DecidableEq, Inhabited

def Activity.message : Activity → String
  | enumerating node => s!"Could not enumerate the relationships of node {node}"
  | visitingFrom source => s!"Could not visit the graph from sources {source}.."

inductive StepFailure where
  | decode (activity : Activity) (error : DecodeError)
  | broken (fault : Fault)
deriving DecidableEq

/-- A failure to read the graph during an activity. -/
def StepFailure.ofRead (activity : Activity) : ReadError → StepFailure
  | .decode error => decode activity error
  | .fault fault => broken fault

def StepFailure.message : StepFailure → String
  | decode activity error => activity.message ++ ": " ++ error.message
  | broken fault => fault.message.getD ""

inductive AlgorithmError where
  | input (error : InputError)
  | run (error : RunError StepFailure)
  | broken (fault : Fault)
deriving DecidableEq

namespace AlgorithmError

/-- The broken contract behind an error, if that is its cause. -/
def fault? : AlgorithmError → Option Fault
  | broken fault | run (.step _ (.broken fault)) | run (.barrier (.broken fault)) => some fault
  | run .tooManyIterations => some .counterOverflow
  | _ => none

/-- The corrupt data behind an error, if that is its cause. -/
def decodeError? : AlgorithmError → Option DecodeError
  | run (.step _ (.decode _ error)) | run (.barrier (.decode _ error)) => some error
  | _ => none

def message : AlgorithmError → String
  | input error => error.message
  | run error => error.message StepFailure.message
  | broken fault => fault.message.getD ""

end AlgorithmError

end PackedGraph
