import PackedGraph.Iteration.Engine

/-!
# Scripted computations

Steps and barriers that follow a script: it says in which iterations they fail, raise the
termination flag, report a change, or halt. Steps count how often they were called, and the world
keeps a record of the barrier calls.
-/

namespace PackedGraph

structure ScriptedStep where
  /-- The number of iterations with a change, if it is limited. -/
  changes : Option Nat
  failAt : Option Nat
  terminateAt : Option Nat
  computed : Nat
  released : Nat
deriving DecidableEq, Inhabited

structure ScriptedBarrier where
  breakAt : Option Nat
  failAt : Option Nat
  terminateAt : Option Nat
deriving DecidableEq, Inhabited

structure ScriptWorld where
  isTerminated : Bool
  /-- The calls of the barrier, the last one first, with the numbers of computations so far. -/
  barrierCalls : List (Nat × List Nat)
deriving DecidableEq, Inhabited

inductive ScriptFailure where
  | batch
  | barrier
deriving DecidableEq, Inhabited

def ScriptFailure.message : ScriptFailure → String
  | batch => "Corrupt batch"
  | barrier => "Barrier failure"

def ScriptedStep.compute (iteration : Nat) (step : ScriptedStep) (world : ScriptWorld) :
    ScriptedStep × ScriptWorld × Except ScriptFailure Bool :=
  if step.failAt = some iteration then (step, world, .error .batch)
  else
    let raises := step.terminateAt == some iteration
    let changed := step.changes.all (iteration < ·)
    ({ step with computed := step.computed + 1 },
      { world with isTerminated := world.isTerminated || raises }, .ok changed)

def ScriptedBarrier.call (barrier : ScriptedBarrier) (completed : Nat) (steps : List ScriptedStep)
    (world : ScriptWorld) : List ScriptedStep × ScriptWorld × Except ScriptFailure Verdict :=
  let call := (completed, steps.map ScriptedStep.computed)
  let world := { world with barrierCalls := call :: world.barrierCalls }
  if barrier.failAt = some completed then (steps, world, .error .barrier)
  else
    let raises := barrier.terminateAt == some completed
    (steps, { world with isTerminated := world.isTerminated || raises },
      .ok (if barrier.breakAt = some completed then .halt else .proceed))

/-- The computation of scripted steps with a scripted barrier. -/
def scripted (barrier : ScriptedBarrier) : Computation ScriptedStep ScriptWorld ScriptFailure where
  compute := ScriptedStep.compute
  release step := { step with released := step.released + 1 }
  barrier := barrier.call
  isTerminated := ScriptWorld.isTerminated

end PackedGraph
