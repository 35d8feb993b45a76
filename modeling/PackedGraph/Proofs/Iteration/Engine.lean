import Mathlib
import PackedGraph.Iteration.Engine

/-!
# Computations of a single iteration

A computation with a stopping rule that allows one iteration ends with the outcome of its sweep,
unless it is terminated before.
-/

namespace PackedGraph.Computation

variable {σ ω ε : Type} {c : Computation σ ω ε} {steps after : List σ} {world final : ω}

theorem iterate_succ {stops : Nat → Bool} {left completed : Nat}
    (hterminated : c.isTerminated world = false) (hstops : stops completed = false) :
    c.iterate stops (left + 1) completed steps world =
      match c.sweep completed steps world with
      | (steps, world, .error e) => ⟨steps, world, .error (.step (completed + 1) e)⟩
      | (steps, world, .ok false) => ⟨steps, world, .ok ⟨completed + 1, true⟩⟩
      | (steps, world, .ok true) =>
        match c.barrier (completed + 1) steps world with
        | (steps, world, .error e) => ⟨steps, world, .error (.barrier e)⟩
        | (steps, world, .ok .halt) => ⟨steps, world, .ok ⟨completed + 1, true⟩⟩
        | (steps, world, .ok .proceed) => c.iterate stops left (completed + 1) steps world := by
  have hrunning : ¬ c.isTerminated world = true := Bool.eq_false_iff.mp hterminated
  have hgoing : ¬ stops completed = true := Bool.eq_false_iff.mp hstops
  exact (if_neg hrunning).trans (if_neg hgoing)

theorem iterate_terminated {stops : Nat → Bool} {left completed : Nat}
    (hterminated : c.isTerminated world = true) :
    c.iterate stops left completed steps world = ⟨steps, world, .error .interrupted⟩ := by
  unfold iterate
  rw [if_pos hterminated]

theorem run_once_of_unchanged (hterminated : c.isTerminated world = false)
    (hsweep : c.sweep 0 steps world = (after, final, .ok false)) :
    c.run (1 ≤ ·) steps world = ⟨after.map c.release, final, .ok ⟨1, true⟩⟩ := by
  have hlimit : UInt64.size - 1 = UInt64.size - 2 + 1 := rfl
  rw [run, hlimit, iterate_succ hterminated rfl, hsweep]

theorem run_once_of_failed (hterminated : c.isTerminated world = false) {error : ε}
    (hsweep : c.sweep 0 steps world = (after, final, .error error)) :
    c.run (1 ≤ ·) steps world = ⟨after.map c.release, final, .error (.step 1 error)⟩ := by
  have hlimit : UInt64.size - 1 = UInt64.size - 2 + 1 := rfl
  rw [run, hlimit, iterate_succ hterminated rfl, hsweep]

theorem run_once_of_terminated (hterminated : c.isTerminated world = true) :
    c.run (1 ≤ ·) steps world = ⟨steps.map c.release, world, .error .interrupted⟩ := by
  rw [run, iterate_terminated hterminated]

end PackedGraph.Computation
