import Mathlib
import PackedGraph.Proofs.Iteration.Engine

/-!
# The course of a computation

A computation goes through some iterations with a change, after each of which its barrier lets it
proceed, and then ends in one of seven ways. What holds at the start and is kept by an iteration
therefore holds where a computation ends.
-/

namespace PackedGraph.Computation

variable {σ τ ω υ ε : Type} {c : Computation σ ω ε} {stops : Nat → Bool}
variable {completed left limit : Nat} {first steps now after : List σ}
variable {start world between final : ω}

/-- An iteration changes something, and the barrier lets the computation proceed. -/
def Proceeds (c : Computation σ ω ε) (completed : Nat) (steps : List σ) (world : ω)
    (after : List σ) (final : ω) : Prop :=
  ∃ swept later, c.sweep completed steps world = (swept, later, .ok true) ∧
    c.barrier (completed + 1) swept later = (after, final, .ok .proceed)

/-- The steps and the world that a computation has after a number of iterations. -/
inductive Reaches (c : Computation σ ω ε) (steps : List σ) (world : ω) :
    Nat → List σ → ω → Prop
  | start : Reaches c steps world 0 steps world
  | next {completed : Nat} {now after : List σ} {between final : ω} :
    Reaches c steps world completed now between → c.Proceeds completed now between after final →
      Reaches c steps world (completed + 1) after final

/-- The ways to end after some completed iterations, before or during the next one. -/
inductive Ends (c : Computation σ ω ε) (stops : Nat → Bool) (limit completed : Nat)
    (steps : List σ) (world : ω) : Ended σ ω ε → Prop
  | interrupted : c.isTerminated world = true →
    Ends c stops limit completed steps world ⟨steps, world, .error .interrupted⟩
  | stopped : stops completed = true →
    Ends c stops limit completed steps world ⟨steps, world, .ok ⟨completed, false⟩⟩
  | exhausted : completed = limit →
    Ends c stops limit completed steps world ⟨steps, world, .error .tooManyIterations⟩
  | failed {after : List σ} {final : ω} {error : ε} :
    c.sweep completed steps world = (after, final, .error error) →
      Ends c stops limit completed steps world ⟨after, final, .error (.step (completed + 1) error)⟩
  | unchanged {after : List σ} {final : ω} :
    stops completed = false → c.sweep completed steps world = (after, final, .ok false) →
      Ends c stops limit completed steps world ⟨after, final, .ok ⟨completed + 1, true⟩⟩
  | barrierFailed {swept after : List σ} {later final : ω} {error : ε} :
    c.sweep completed steps world = (swept, later, .ok true) →
      c.barrier (completed + 1) swept later = (after, final, .error error) →
      Ends c stops limit completed steps world ⟨after, final, .error (.barrier error)⟩
  | halted {swept after : List σ} {later final : ω} :
    stops completed = false → c.sweep completed steps world = (swept, later, .ok true) →
      c.barrier (completed + 1) swept later = (after, final, .ok .halt) →
      Ends c stops limit completed steps world ⟨after, final, .ok ⟨completed + 1, true⟩⟩

/-- The steps of an iteration that succeeds succeed one after another. -/
theorem exists_of_sweep_cons {iteration : Nat} {step : σ} {changed : Bool}
    (h : c.sweep iteration (step :: steps) world = (after, final, .ok changed)) :
    ∃ moved between flag others rest,
      c.compute iteration step world = (moved, between, .ok flag) ∧
      c.sweep iteration steps between = (others, final, .ok rest) ∧
      after = moved :: others ∧ changed = (flag || rest) := by
  rw [sweep] at h
  rcases hcompute : c.compute iteration step world with ⟨moved, between, error | flag⟩
  · rw [hcompute] at h
    exact absurd (congrArg (·.2.2) h) nofun
  rw [hcompute] at h
  rcases hrest : c.sweep iteration steps between with ⟨others, later, error | rest⟩
  · simp only [hrest] at h
    exact absurd (congrArg (·.2.2) h) nofun
  simp only [hrest] at h
  obtain ⟨rfl, hworld⟩ := Prod.mk.inj h
  obtain ⟨rfl, hflag⟩ := Prod.mk.inj hworld
  exact ⟨moved, between, flag, others, rest, rfl, hrest, rfl, (Except.ok.inj hflag).symm⟩

theorem iterate_stopped (hterminated : c.isTerminated world = false)
    (hstops : stops completed = true) :
    c.iterate stops left completed steps world = ⟨steps, world, .ok ⟨completed, false⟩⟩ := by
  have hrunning : ¬ c.isTerminated world = true := Bool.eq_false_iff.mp hterminated
  unfold iterate
  rw [if_neg hrunning, if_pos hstops]

theorem iterate_zero (hterminated : c.isTerminated world = false)
    (hstops : stops completed = false) :
    c.iterate stops 0 completed steps world = ⟨steps, world, .error .tooManyIterations⟩ := by
  have hrunning : ¬ c.isTerminated world = true := Bool.eq_false_iff.mp hterminated
  have hgoing : ¬ stops completed = true := Bool.eq_false_iff.mp hstops
  unfold iterate
  rw [if_neg hrunning, if_neg hgoing]

theorem iterate_proceeds (hterminated : c.isTerminated world = false)
    (hstops : stops completed = false) (h : c.Proceeds completed steps world after final) :
    c.iterate stops (left + 1) completed steps world =
      c.iterate stops left (completed + 1) after final := by
  obtain ⟨swept, later, hsweep, hbarrier⟩ := h
  rw [iterate_succ hterminated hstops, hsweep]
  simp only [hbarrier]

/-- An iteration ends the computation, or the computation proceeds with the next one. -/
theorem ends_or_proceeds (c : Computation σ ω ε) (stops : Nat → Bool) (left completed : Nat)
    (steps : List σ) (world : ω) :
    c.Ends stops (completed + left) completed steps world
        (c.iterate stops left completed steps world) ∨
      ∃ rest after final, left = rest + 1 ∧ stops completed = false ∧
        c.Proceeds completed steps world after final ∧
        c.iterate stops left completed steps world =
          c.iterate stops rest (completed + 1) after final := by
  by_cases hterminated : c.isTerminated world = true
  · rw [iterate_terminated hterminated]
    exact .inl (.interrupted hterminated)
  have hrunning : c.isTerminated world = false := Bool.eq_false_iff.mpr hterminated
  by_cases hstops : stops completed = true
  · rw [iterate_stopped hrunning hstops]
    exact .inl (.stopped hstops)
  have hgoing : stops completed = false := Bool.eq_false_iff.mpr hstops
  cases left with
  | zero =>
    rw [iterate_zero hrunning hgoing]
    exact .inl (.exhausted rfl)
  | succ rest =>
    rw [iterate_succ hrunning hgoing]
    rcases hsweep : c.sweep completed steps world with ⟨swept, later, error | changed⟩
    · exact .inl (.failed hsweep)
    cases changed with
    | false => exact .inl (.unchanged hgoing hsweep)
    | true =>
      rcases hbarrier : c.barrier (completed + 1) swept later with ⟨after, final, error | verdict⟩
      · simp only [hbarrier]
        exact .inl (.barrierFailed hsweep hbarrier)
      simp only [hbarrier]
      cases verdict with
      | halt => exact .inl (.halted hgoing hsweep hbarrier)
      | proceed =>
        exact .inr ⟨rest, after, final, rfl, hgoing, ⟨swept, later, hsweep, hbarrier⟩, rfl⟩

theorem exists_ends_iterate (left : Nat) (h : c.Reaches first start completed steps world)
    (hgoing : ∀ i < completed, stops i = false) :
    ∃ k now between, k ≤ completed + left ∧ c.Reaches first start k now between ∧
      (∀ i < k, stops i = false) ∧
      c.Ends stops (completed + left) k now between
        (c.iterate stops left completed steps world) := by
  induction left generalizing completed steps world with
  | zero =>
    rcases c.ends_or_proceeds stops 0 completed steps world with hends | ⟨rest, _, _, hleft, _⟩
    · exact ⟨completed, steps, world, le_rfl, h, hgoing, hends⟩
    · exact absurd hleft (Nat.succ_ne_zero rest).symm
  | succ left ih =>
    rcases c.ends_or_proceeds stops (left + 1) completed steps world with
      hends | ⟨rest, after, final, hleft, hstops, hproceeds, heq⟩
    · exact ⟨completed, steps, world, Nat.le_add_right _ _, h, hgoing, hends⟩
    · obtain rfl : left = rest := Nat.succ.inj hleft
      have hlater : ∀ i < completed + 1, stops i = false :=
        Nat.forall_lt_succ_right.mpr ⟨hgoing, hstops⟩
      have hlimit : completed + 1 + left = completed + (left + 1) := by omega
      have hend := ih (h.next hproceeds) hlater
      rw [hlimit] at hend
      rw [heq]
      exact hend

/-- A run goes through some iterations that its rule does not stop, and then ends. -/
theorem exists_ends (c : Computation σ ω ε) (stops : Nat → Bool) (steps : List σ) (world : ω) :
    ∃ k now between ended, k < UInt64.size ∧ c.Reaches steps world k now between ∧
      (∀ i < k, stops i = false) ∧ c.Ends stops (UInt64.size - 1) k now between ended ∧
      c.run stops steps world = { ended with steps := ended.steps.map c.release } := by
  have hnone : ∀ i < 0, stops i = false := fun i hi ↦ absurd hi (Nat.not_lt_zero i)
  have hstart : c.Reaches steps world 0 steps world := .start
  obtain ⟨k, now, between, hk, hreaches, hgoing, hends⟩ :=
    exists_ends_iterate (UInt64.size - 1) hstart hnone
  rw [Nat.zero_add] at hk hends
  have hsize : k < UInt64.size := Nat.lt_of_le_of_lt hk (by decide)
  exact ⟨k, now, between, _, hsize, hreaches, hgoing, hends, rfl⟩

/-- A run that ends after some iterations has gone through one in which no step fails. -/
theorem exists_sweep_of_run {outcome : Outcome} (h : (c.run stops steps world).result = .ok outcome)
    (hpositive : outcome.iterations ≠ 0) :
    ∃ k now between swept later changed, c.Reaches steps world k now between ∧
      c.sweep k now between = (swept, later, .ok changed) := by
  obtain ⟨k, now, between, ended, _, hreaches, _, hends, hrun⟩ := c.exists_ends stops steps world
  rw [hrun] at h
  cases hends with
  | stopped =>
    obtain rfl := Except.ok.inj h
    cases hreaches with
    | start => exact absurd rfl hpositive
    | next hbefore hproceeds =>
      obtain ⟨swept, later, hsweep, _⟩ := hproceeds
      exact ⟨_, _, _, swept, later, true, hbefore, hsweep⟩
  | unchanged _ hsweep => exact ⟨k, now, between, _, _, false, hreaches, hsweep⟩
  | halted _ hsweep _ => exact ⟨k, now, between, _, _, true, hreaches, hsweep⟩
  | interrupted | exhausted | failed | barrierFailed => exact nomatch h

/-- A run ends after an iteration that changes nothing. -/
def EndsUnchanged (c : Computation σ ω ε) (stops : Nat → Bool) (steps : List σ) (world : ω) :
    Prop :=
  ∃ k now between after final, c.Reaches steps world k now between ∧
    c.sweep k now between = (after, final, .ok false) ∧
    c.run stops steps world = ⟨after.map c.release, final, .ok ⟨k + 1, true⟩⟩

/-- A run that converges ends after an iteration that changes nothing, or the barrier halts it. -/
theorem endsUnchanged_or_halts {outcome : Outcome}
    (h : (c.run stops steps world).result = .ok outcome) (hconverged : outcome.didConverge = true) :
    c.EndsUnchanged stops steps world ∨
      ∃ k now between swept later after final, c.Reaches steps world k now between ∧
        c.sweep k now between = (swept, later, .ok true) ∧
        c.barrier (k + 1) swept later = (after, final, .ok .halt) := by
  obtain ⟨k, now, between, ended, _, hreaches, _, hends, hrun⟩ := c.exists_ends stops steps world
  rw [hrun] at h
  cases hends with
  | stopped =>
    obtain rfl := Except.ok.inj h
    exact nomatch hconverged
  | unchanged _ hsweep => exact .inl ⟨k, now, between, _, _, hreaches, hsweep, hrun⟩
  | halted _ hsweep hbarrier =>
    exact .inr ⟨k, now, between, _, _, _, _, hreaches, hsweep, hbarrier⟩
  | interrupted | exhausted | failed | barrierFailed => exact nomatch h

/-- A rule that stops after a number of iterations below 2⁶⁴ keeps a run from having too many. -/
theorem run_ne_tooManyIterations {i : Nat} (hstops : stops i = true) (hi : i < UInt64.size) :
    (c.run stops steps world).result ≠ .error .tooManyIterations := by
  have hiterate (left completed : Nat) (steps : List σ) (world : ω) (hle : completed ≤ i)
      (hleft : i ≤ completed + left) :
      (c.iterate stops left completed steps world).result ≠ .error .tooManyIterations := by
    induction left generalizing completed steps world with
    | zero =>
      obtain rfl : completed = i := le_antisymm hle hleft
      by_cases hterminated : c.isTerminated world = true
      · rw [iterate_terminated hterminated]
        exact nofun
      · rw [iterate_stopped (Bool.eq_false_iff.mpr hterminated) hstops]
        exact nofun
    | succ left ih =>
      rcases c.ends_or_proceeds stops (left + 1) completed steps world with
        hends | ⟨rest, after, final, hrest, hgoing, _, heq⟩
      · generalize c.iterate stops (left + 1) completed steps world = ended at hends ⊢
        intro hresult
        cases hends with
        | exhausted hlimit => omega
        | interrupted | stopped | failed | unchanged | barrierFailed | halted => exact nomatch hresult
      · have hne : completed ≠ i := fun heq ↦ Bool.false_ne_true (hgoing.symm.trans (heq ▸ hstops))
        obtain rfl : left = rest := Nat.succ.inj hrest
        rw [heq]
        exact ih (completed + 1) after final (by omega) (by omega)
  rw [run]
  exact hiterate _ 0 steps world (Nat.zero_le i) (by omega)

/-- A computation follows the iterations that it can go through, unless it is interrupted. -/
theorem iterate_of_reaches (h : c.Reaches steps world completed now between)
    (hgoing : ∀ i < completed, stops i = false) (hlimit : completed ≤ limit) :
    (c.iterate stops limit 0 steps world).result = .error .interrupted ∨
      c.iterate stops limit 0 steps world =
        c.iterate stops (limit - completed) completed now between := by
  induction h with
  | start => exact .inr rfl
  | @next completed now after between final hreaches hproceeds ih =>
    have hbefore : ∀ i < completed, stops i = false := fun i hi ↦ hgoing i (Nat.lt_succ_of_lt hi)
    rcases ih hbefore (Nat.le_of_succ_le hlimit) with hinterrupted | heq
    · exact .inl hinterrupted
    by_cases hterminated : c.isTerminated between = true
    · rw [heq, iterate_terminated hterminated]
      exact .inl rfl
    · have hleft : limit - completed = limit - (completed + 1) + 1 := by omega
      rw [heq, hleft, iterate_proceeds (Bool.eq_false_iff.mpr hterminated)
        (hgoing completed (Nat.lt_succ_self completed)) hproceeds]
      exact .inr rfl

/-- A run is interrupted if the termination flag is up after some iterations that its rule does not
stop, and in no other case. -/
theorem run_interrupted_iff :
    (c.run stops steps world).result = .error .interrupted ↔
      ∃ k now between, k < UInt64.size ∧ c.Reaches steps world k now between ∧
        (∀ i < k, stops i = false) ∧ c.isTerminated between = true := by
  constructor
  · intro hresult
    obtain ⟨k, now, between, ended, hk, hreaches, hgoing, hends, hrun⟩ :=
      c.exists_ends stops steps world
    rw [hrun] at hresult
    cases hends with
    | interrupted hterminated => exact ⟨k, now, between, hk, hreaches, hgoing, hterminated⟩
    | stopped | exhausted | failed | unchanged | barrierFailed | halted => exact nomatch hresult
  · rintro ⟨k, now, between, hk, hreaches, hgoing, hterminated⟩
    have hlimit : k ≤ UInt64.size - 1 := Nat.le_sub_one_of_lt hk
    rcases iterate_of_reaches hreaches hgoing hlimit with hinterrupted | heq
    · exact hinterrupted
    · rw [run, heq, iterate_terminated hterminated]

/-! ## Simulation -/

/-- A relation between the steps and worlds of two computations that iterations and barriers keep,
while they report the same. -/
structure Simulates (c : Computation σ ω ε) (d : Computation τ υ ε)
    (related : List σ → ω → List τ → υ → Prop) : Prop where
  isTerminated {steps world others outside} : related steps world others outside →
    c.isTerminated world = d.isTerminated outside
  sweep {steps world others outside} (iteration : Nat) : related steps world others outside →
    ∃ swept later mirrored beyond outcome, c.sweep iteration steps world = (swept, later, outcome) ∧
      d.sweep iteration others outside = (mirrored, beyond, outcome) ∧
      related swept later mirrored beyond
  barrier {steps world others outside} (completed : Nat) : related steps world others outside →
    ∃ after final mirrored beyond verdict,
      c.barrier completed steps world = (after, final, verdict) ∧
      d.barrier completed others outside = (mirrored, beyond, verdict) ∧
      related after final mirrored beyond

/-- Two computations end with the same result, and with steps and worlds that are related. -/
structure EndAlike (related : List σ → ω → List τ → υ → Prop) (ended : Ended σ ω ε)
    (mirrored : Ended τ υ ε) : Prop where
  result_eq : ended.result = mirrored.result
  related : related ended.steps ended.world mirrored.steps mirrored.world

/-- A computation ends like one that it simulates. -/
theorem Simulates.iterate {d : Computation τ υ ε} {related : List σ → ω → List τ → υ → Prop}
    (h : c.Simulates d related) (stops : Nat → Bool) (left completed : Nat) {others : List τ}
    {outside : υ} (hrelated : related steps world others outside) :
    EndAlike related (c.iterate stops left completed steps world)
      (d.iterate stops left completed others outside) := by
  induction left using Nat.strongRecOn generalizing completed steps world others outside with
  | ind left ih =>
  have hflags := h.isTerminated hrelated
  by_cases hterminated : c.isTerminated world = true
  · rw [iterate_terminated hterminated, iterate_terminated (hflags.symm.trans hterminated)]
    exact ⟨rfl, hrelated⟩
  have hrunning : c.isTerminated world = false := Bool.eq_false_iff.mpr hterminated
  have hgoing : d.isTerminated outside = false := hflags.symm.trans hrunning
  by_cases hstops : stops completed = true
  · rw [iterate_stopped hrunning hstops, iterate_stopped hgoing hstops]
    exact ⟨rfl, hrelated⟩
  replace hstops : stops completed = false := Bool.eq_false_iff.mpr hstops
  cases left with
  | zero =>
    rw [iterate_zero hrunning hstops, iterate_zero hgoing hstops]
    exact ⟨rfl, hrelated⟩
  | succ left =>
    obtain ⟨swept, later, mirrored, beyond, outcome, hsweep, hmirrored, hswept⟩ :=
      h.sweep completed hrelated
    rw [iterate_succ hrunning hstops, iterate_succ hgoing hstops, hsweep, hmirrored]
    rcases outcome with error | _ | _
    · exact ⟨rfl, hswept⟩
    · exact ⟨rfl, hswept⟩
    obtain ⟨after, final, mirrored, beyond, verdict, hbarrier, hmirrored, hpassed⟩ :=
      h.barrier (completed + 1) hswept
    simp only [hbarrier, hmirrored]
    rcases verdict with error | _ | _
    · exact ⟨rfl, hpassed⟩
    · exact ih left (Nat.lt_succ_self left) (completed + 1) hpassed
    · exact ⟨rfl, hpassed⟩

end PackedGraph.Computation
