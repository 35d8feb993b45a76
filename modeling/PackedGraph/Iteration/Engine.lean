/-!
# Iterated computations

A computation is a list of steps that work on a shared world. In an iteration every step computes
once, and says whether it changed anything. A barrier follows each iteration with a change; it may
update the steps and end the computation. A computation also ends when an iteration changes
nothing, when a stopping rule says so before an iteration, when it is terminated, or when a step
or the barrier fails. In all cases every step is released once at the end.
-/

namespace PackedGraph

inductive Verdict where
  | proceed
  | halt
deriving DecidableEq, Inhabited

/-- How a computation that did not fail has ended. -/
structure Outcome where
  iterations : Nat
  didConverge : Bool
deriving DecidableEq, Inhabited

inductive RunError (ε : Type) where
  | interrupted
  /-- A step failed in an iteration, where iterations are counted from one. -/
  | step (iteration : Nat) (cause : ε)
  | barrier (cause : ε)
  /-- There is no number for the next iteration. -/
  | tooManyIterations
deriving DecidableEq

/-- The text of an error, given that of its cause. -/
def RunError.message {ε : Type} (cause : ε → String) : RunError ε → String
  | interrupted => "The computation was interrupted"
  | step iteration e => s!"Compute step failed at iteration {iteration}: " ++ cause e
  | barrier e => cause e
  | tooManyIterations => "The computation has too many iterations"

/-- Steps of type `σ` that share a world of type `ω`, and fail with errors of type `ε`. -/
structure Computation (σ ω ε : Type) where
  compute : (iteration : Nat) → σ → ω → σ × ω × Except ε Bool
  release : σ → σ
  barrier : (completed : Nat) → List σ → ω → List σ × ω × Except ε Verdict
  isTerminated : ω → Bool

/-- What a run leaves behind. -/
structure Ended (σ ω ε : Type) where
  steps : List σ
  world : ω
  result : Except (RunError ε) Outcome

namespace Computation

variable {σ ω ε : Type}

/-- One iteration: every step computes once, up to the first that fails. -/
def sweep (c : Computation σ ω ε) (iteration : Nat) : List σ → ω → List σ × ω × Except ε Bool
  | [], world => ([], world, .ok false)
  | step :: steps, world =>
    match c.compute iteration step world with
    | (step, world, .error e) => (step :: steps, world, .error e)
    | (step, world, .ok changed) =>
      let (steps, world, others) := c.sweep iteration steps world
      (step :: steps, world, others.map (changed || ·))

/-- Iterates from a number of completed iterations on, at most `left` more times. -/
def iterate (c : Computation σ ω ε) (stops : Nat → Bool) (left completed : Nat) (steps : List σ)
    (world : ω) : Ended σ ω ε :=
  if c.isTerminated world then ⟨steps, world, .error .interrupted⟩
  else if stops completed then ⟨steps, world, .ok ⟨completed, false⟩⟩
  else
    match left with
    | 0 => ⟨steps, world, .error .tooManyIterations⟩
    | left + 1 =>
      match c.sweep completed steps world with
      | (steps, world, .error e) => ⟨steps, world, .error (.step (completed + 1) e)⟩
      | (steps, world, .ok false) => ⟨steps, world, .ok ⟨completed + 1, true⟩⟩
      | (steps, world, .ok true) =>
        match c.barrier (completed + 1) steps world with
        | (steps, world, .error e) => ⟨steps, world, .error (.barrier e)⟩
        | (steps, world, .ok .halt) => ⟨steps, world, .ok ⟨completed + 1, true⟩⟩
        | (steps, world, .ok .proceed) => c.iterate stops left (completed + 1) steps world

/-- Runs a computation to its end. Iterations are counted with 64 bits. -/
def run (c : Computation σ ω ε) (stops : Nat → Bool) (steps : List σ) (world : ω) :
    Ended σ ω ε :=
  let ended := c.iterate stops (UInt64.size - 1) 0 steps world
  { ended with steps := ended.steps.map c.release }

end Computation

end PackedGraph
