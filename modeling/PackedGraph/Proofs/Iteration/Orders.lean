import Mathlib
import PackedGraph.Iteration.Script
import PackedGraph.Proofs.Iteration.Course

/-!
# Computations in any order

The steps of an iteration may compute in any order. When each of them depends on nothing but
itself, and shares nothing but a flag that it may raise, all orders lead to the same steps, world
and result. A record of the reports and of the barrier calls says why a run has ended.
-/

namespace PackedGraph

/-- What happens in a run: a step reports in an iteration, or the barrier is called after some
completed iterations. -/
inductive Event (ε : Type) where
  | reported (iteration : Nat) (outcome : Except ε Bool)
  | called (completed : Nat) (verdict : Except ε Verdict)

def Event.call? {ε : Type} : Event ε → Option (Nat × Except ε Verdict)
  | reported _ _ => none
  | called completed verdict => some (completed, verdict)

/-- The calls of the barrier in a record. -/
def barrierCalls {ε : Type} (record : List (Event ε)) : List (Nat × Except ε Verdict) :=
  record.filterMap Event.call?

/-- The barrier calls after the iterations `1, …, k`, each of which let the computation proceed. -/
def proceedingCalls {ε : Type} (k : Nat) : List (Nat × Except ε Verdict) :=
  (List.range' 1 k).map fun completed ↦ (completed, .ok .proceed)

/-! ## Records -/

section Record

variable {ε : Type}

/-- What a record says after some completed iterations. -/
structure Recorded (completed : Nat) (record : List (Event ε)) : Prop where
  calls : barrierCalls record = proceedingCalls completed
  changes : ∀ i < completed, .reported i (.ok true) ∈ record
  past : ∀ i outcome, .reported i outcome ∈ record → i < completed

/-- What a record says after the steps of one more iteration. -/
structure RecordedSweep (completed : Nat) (changed : Bool) (record : List (Event ε)) : Prop where
  calls : barrierCalls record = proceedingCalls completed
  changes : ∀ i < completed, .reported i (.ok true) ∈ record
  past : ∀ i outcome, .reported i outcome ∈ record → i < completed + 1
  change : changed = true → .reported completed (.ok true) ∈ record
  unchanged : changed = false →
    ∀ outcome, .reported completed outcome ∈ record → outcome = .ok false

theorem barrierCalls_append_called (record : List (Event ε)) (completed : Nat)
    (verdict : Except ε Verdict) :
    barrierCalls (record ++ [.called completed verdict]) =
      barrierCalls record ++ [(completed, verdict)] :=
  List.filterMap_append

theorem proceedingCalls_succ (k : Nat) :
    (proceedingCalls (k + 1) : List (Nat × Except ε Verdict)) =
      proceedingCalls k ++ [(k + 1, .ok .proceed)] := by
  rw [proceedingCalls, List.range'_1_concat, List.map_append, Nat.add_comm 1 k]
  rfl

theorem Recorded.sweep {completed : Nat} {record reports : List (Event ε)} {changed : Bool}
    (h : Recorded completed record)
    (hreports : ∀ event ∈ reports, ∃ flag, event = .reported completed (.ok flag))
    (hchanged : changed = true ↔ .reported completed (.ok true) ∈ reports) :
    RecordedSweep completed changed (record ++ reports) where
  calls := by
    have hnone : barrierCalls reports = [] := by
      apply List.filterMap_eq_nil_iff.mpr
      intro event hevent
      obtain ⟨flag, rfl⟩ := hreports event hevent
      rfl
    rw [barrierCalls, List.filterMap_append, ← barrierCalls, ← barrierCalls, hnone,
      List.append_nil, h.calls]
  changes i hi := List.mem_append_left _ (h.changes i hi)
  past i outcome hmem := by
    rcases List.mem_append.mp hmem with hold | hnew
    · exact Nat.lt_succ_of_lt (h.past i outcome hold)
    · obtain ⟨flag, heq⟩ := hreports _ hnew
      obtain ⟨rfl, _⟩ := Event.reported.inj heq
      exact Nat.lt_succ_self i
  change hflag := List.mem_append_right _ (hchanged.mp hflag)
  unchanged hflag outcome hmem := by
    rcases List.mem_append.mp hmem with hold | hnew
    · exact absurd (h.past completed outcome hold) (Nat.lt_irrefl completed)
    · obtain ⟨flag, heq⟩ := hreports _ hnew
      obtain ⟨_, rfl⟩ := Event.reported.inj heq
      cases flag with
      | false => rfl
      | true => exact absurd (hchanged.mpr hnew) (hflag ▸ Bool.false_ne_true)

theorem RecordedSweep.proceed {completed : Nat} {record : List (Event ε)}
    (h : RecordedSweep completed true record) :
    Recorded (completed + 1) (record ++ [.called (completed + 1) (.ok .proceed)]) where
  calls := by rw [barrierCalls_append_called, h.calls, proceedingCalls_succ]
  changes := Nat.forall_lt_succ_right.mpr
    ⟨fun i hi ↦ List.mem_append_left _ (h.changes i hi), List.mem_append_left _ (h.change rfl)⟩
  past i outcome hmem := by
    rcases List.mem_append.mp hmem with hold | hcall
    · exact h.past i outcome hold
    · exact absurd (List.mem_singleton.mp hcall) nofun

end Record

/-! ## Orders -/

/-- The order in which the steps compute in each iteration, given their number. -/
structure Schedule where
  positions (iteration count : Nat) : List Nat
  perm (iteration count : Nat) : (positions iteration count).Perm (List.range count)

/-- What a step does on its own: what it turns into, whether it reports a change, and whether it
raises the termination flag. -/
structure Effect (σ : Type) where
  after : σ
  changed : Bool
  raises : Bool

/-- What is recorded of a step in an iteration. -/
def Effect.report {σ ε : Type} (iteration : Nat) (effect : Effect σ) : Event ε :=
  .reported iteration (.ok effect.changed)

theorem filterMap_getElem?_range {σ : Type} (steps : List σ) :
    (List.range steps.length).filterMap (steps[·]?) = steps := by
  induction steps with
  | nil => rfl
  | cons step steps ih =>
    rw [List.length_cons, List.range_succ_eq_map, List.filterMap_cons_some List.getElem?_cons_zero,
      List.filterMap_map]
    exact congrArg (step :: ·) ih

theorem filterMap_getElem?_set_of_notMem {σ : Type} {steps : List σ} {position : Nat}
    {positions : List Nat} (h : position ∉ positions) (step : σ) :
    positions.filterMap ((steps.set position step)[·]?) = positions.filterMap (steps[·]?) := by
  apply List.filterMap_congr
  intro i hi
  have hne : position ≠ i := fun heq ↦ h (heq ▸ hi)
  exact List.getElem?_set_ne hne

namespace Computation

variable {σ ω ε : Type}

/-- A computation that records what happens. -/
def recorded (c : Computation σ ω ε) : Computation σ (ω × List (Event ε)) ε where
  compute iteration step world :=
    let (step, inner, outcome) := c.compute iteration step world.1
    (step, (inner, world.2 ++ [.reported iteration outcome]), outcome)
  release := c.release
  barrier completed steps world :=
    let (steps, inner, verdict) := c.barrier completed steps world.1
    (steps, (inner, world.2 ++ [.called completed verdict]), verdict)
  isTerminated world := c.isTerminated world.1

/-- An iteration in which the steps at some positions compute, one after another. -/
def sweepInOrder (c : Computation σ ω ε) (iteration : Nat) :
    List Nat → List σ → ω → List σ × ω × Except ε Bool
  | [], steps, world => (steps, world, .ok false)
  | position :: positions, steps, world =>
    match steps[position]? with
    | none => c.sweepInOrder iteration positions steps world
    | some step =>
      match c.compute iteration step world with
      | (step, world, .error e) => (steps.set position step, world, .error e)
      | (step, world, .ok changed) =>
        let (steps, world, others) :=
          c.sweepInOrder iteration positions (steps.set position step) world
        (steps, world, others.map (changed || ·))

/-- The computation that follows a schedule. All steps together are a single step of it. -/
def inOrder (c : Computation σ ω ε) (schedule : Schedule) : Computation (List σ) ω ε where
  compute iteration steps world :=
    c.sweepInOrder iteration (schedule.positions iteration steps.length) steps world
  release := List.map c.release
  barrier completed batches world :=
    let (steps, world, verdict) := c.barrier completed batches.flatten world
    ([steps], world, verdict)
  isTerminated := c.isTerminated

/-- Runs a computation that follows a schedule, and records what happens. -/
def runInOrder (c : Computation σ ω ε) (schedule : Schedule) (stops : Nat → Bool)
    (steps : List σ) (world : ω) : Ended σ ω ε × List (Event ε) :=
  let ended := (c.recorded.inOrder schedule).run stops [steps] (world, [])
  (⟨ended.steps.flatten, ended.world.1, ended.result⟩, ended.world.2)

/-- The steps of a computation never fail, and share nothing but a flag that they may raise. This
is asked of steady steps only, which stay steady. -/
structure Solitary (c : Computation σ ω ε) (IsSteady : σ → Prop) (raise : ω → ω)
    (effect : Nat → σ → Effect σ) : Prop where
  compute_eq {step : σ} (iteration : Nat) (world : ω) : IsSteady step →
    c.compute iteration step world = ((effect iteration step).after,
      if (effect iteration step).raises then raise world else world,
      .ok (effect iteration step).changed)
  raise_raise (world : ω) : raise (raise world) = raise world
  isTerminated_raise (world : ω) : c.isTerminated (raise world) = true
  steady_after {step : σ} (iteration : Nat) : IsSteady step →
    IsSteady (effect iteration step).after
  steady_barrier {steps : List σ} (completed : Nat) (world : ω) : (∀ step ∈ steps, IsSteady step) →
    ∀ step ∈ (c.barrier completed steps world).1, IsSteady step

namespace Solitary

variable {c : Computation σ ω ε} {IsSteady : σ → Prop} {raise : ω → ω}
variable {effect : Nat → σ → Effect σ} {steps : List σ}

theorem raise_twice (h : c.Solitary IsSteady raise effect) (early late : Bool) (world : ω) :
    (if late then raise (if early then raise world else world)
      else if early then raise world else world) =
      if early || late then raise world else world := by
  cases early <;> cases late <;> simp [h.raise_raise]

/-- What the steps of an iteration do together. -/
theorem sweep_eq (h : c.Solitary IsSteady raise effect) (hsteps : ∀ step ∈ steps, IsSteady step)
    (iteration : Nat) (world : ω) :
    c.sweep iteration steps world = (steps.map fun step ↦ (effect iteration step).after,
      if steps.any fun step ↦ (effect iteration step).raises then raise world else world,
      .ok (steps.any fun step ↦ (effect iteration step).changed)) := by
  induction steps generalizing world with
  | nil => rfl
  | cons step steps ih =>
    have hstep := hsteps step List.mem_cons_self
    have hrest := ih (fun other hother ↦ hsteps other (List.mem_cons_of_mem _ hother))
    rw [Computation.sweep, h.compute_eq iteration world hstep]
    simp only [hrest, h.raise_twice]
    rfl

/-- The steps at some positions compute as each of them would alone, and are recorded. -/
theorem sweepInOrder_eq (h : c.Solitary IsSteady raise effect) {positions : List Nat}
    (hnodup : positions.Nodup) (hsteps : ∀ step ∈ steps, IsSteady step) (iteration : Nat)
    (world : ω) (record : List (Event ε)) :
    let executed := positions.filterMap (steps[·]?)
    ∃ after, c.recorded.sweepInOrder iteration positions steps (world, record) =
        (after, (if executed.any fun step ↦ (effect iteration step).raises then raise world
            else world,
          record ++ executed.map fun step ↦ (effect iteration step).report iteration),
          .ok (executed.any fun step ↦ (effect iteration step).changed)) ∧
      ∀ i, after[i]? = if i ∈ positions then steps[i]?.map fun step ↦ (effect iteration step).after
        else steps[i]? := by
  induction positions generalizing steps world record with
  | nil => exact ⟨steps, by simp [sweepInOrder], fun i ↦ (if_neg List.not_mem_nil).symm⟩
  | cons position positions ih =>
    obtain ⟨hfresh, hnodup⟩ := List.nodup_cons.mp hnodup
    intro executed
    cases hstep : steps[position]? with
    | none =>
      obtain ⟨after, hsweep, hafter⟩ := ih hnodup hsteps world record
      have hexecuted : executed = positions.filterMap (steps[·]?) :=
        List.filterMap_cons_none hstep
      refine ⟨after, ?_, fun i ↦ ?_⟩
      · rw [sweepInOrder, hstep, hexecuted]
        exact hsweep
      · rw [hafter]
        by_cases hi : i = position
        · rw [hi, if_neg hfresh, if_pos List.mem_cons_self, hstep]
          rfl
        · simp only [List.mem_cons, hi, false_or]
    | some step =>
      let moved := (effect iteration step).after
      let between := if (effect iteration step).raises then raise world else world
      let report : Event ε := (effect iteration step).report iteration
      have hsteady : IsSteady step := hsteps step (List.mem_of_getElem? hstep)
      have hmoved : ∀ other ∈ steps.set position moved, IsSteady other := by
        intro other hother
        rcases List.mem_or_eq_of_mem_set hother with hold | rfl
        · exact hsteps other hold
        · exact h.steady_after iteration hsteady
      have hexecuted : executed = step :: positions.filterMap (steps[·]?) :=
        List.filterMap_cons_some hstep
      have hcompute : c.recorded.compute iteration step (world, record) =
          (moved, (between, record ++ [report]), .ok (effect iteration step).changed) := by
        simp only [recorded, h.compute_eq iteration world hsteady]
        rfl
      obtain ⟨after, hsweep, hafter⟩ := ih hnodup hmoved between (record ++ [report])
      rw [filterMap_getElem?_set_of_notMem hfresh] at hsweep
      refine ⟨after, ?_, fun i ↦ ?_⟩
      · rw [sweepInOrder, hstep, hexecuted]
        simp only [hcompute, hsweep, between, h.raise_twice, List.append_assoc]
        rfl
      · rw [hafter]
        by_cases hi : i = position
        · rw [hi, if_neg hfresh, if_pos List.mem_cons_self, hstep]
          exact List.getElem?_set_self (List.getElem?_eq_some_iff.mp hstep).1
        · have hne : position ≠ i := Ne.symm hi
          simp only [List.mem_cons, hi, false_or, List.getElem?_set_ne hne]

/-- The steps of an iteration do the same in the order of a schedule as one after another. -/
theorem sweep_inOrder (h : c.Solitary IsSteady raise effect) (schedule : Schedule)
    (hsteps : ∀ step ∈ steps, IsSteady step) (iteration : Nat) (world : ω)
    (record : List (Event ε)) :
    ∃ after final changed reports, c.sweep iteration steps world = (after, final, .ok changed) ∧
      (c.recorded.inOrder schedule).sweep iteration [steps] (world, record) =
        ([after], (final, record ++ reports), .ok changed) ∧
      (∀ step ∈ after, IsSteady step) ∧
      (∀ event ∈ reports, ∃ flag, event = .reported iteration (.ok flag)) ∧
      (changed = true ↔ .reported iteration (.ok true) ∈ reports) := by
  have hperm := schedule.perm iteration steps.length
  have hexecuted : ((schedule.positions iteration steps.length).filterMap (steps[·]?)).Perm
      steps :=
    (hperm.filterMap _).trans (.of_eq (filterMap_getElem?_range steps))
  obtain ⟨after, hsweep, hafter⟩ := h.sweepInOrder_eq (hperm.nodup_iff.mpr List.nodup_range) hsteps
    iteration world record
  have hmap : after = steps.map fun step ↦ (effect iteration step).after := by
    apply List.ext_getElem?
    intro i
    rw [hafter, List.getElem?_map]
    by_cases hi : i ∈ schedule.positions iteration steps.length
    · exact if_pos hi
    · rw [hperm.mem_iff, List.mem_range] at hi
      rw [List.getElem?_eq_none (Nat.le_of_not_lt hi)]
      exact ite_self none
  generalize (schedule.positions iteration steps.length).filterMap (steps[·]?) = executed
    at hsweep hexecuted
  rw [hexecuted.any_eq, hexecuted.any_eq] at hsweep
  refine ⟨_, _, _, executed.map fun step ↦ (effect iteration step).report iteration,
    h.sweep_eq hsteps iteration world, ?_, fun step hstep ↦ ?_, fun event hevent ↦ ?_, ?_⟩
  · simp only [Computation.sweep, inOrder, hsweep, hmap, Except.map, Bool.or_false]
  · obtain ⟨old, hold, rfl⟩ := List.mem_map.mp hstep
    exact h.steady_after iteration (hsteps old hold)
  · obtain ⟨step, _, rfl⟩ := List.mem_map.mp hevent
    exact ⟨_, rfl⟩
  · simp [hexecuted.mem_iff, Effect.report]

theorem barrier_inOrder (c : Computation σ ω ε) (schedule : Schedule) (completed : Nat)
    (steps : List σ) (world : ω) (record : List (Event ε)) {after : List σ} {final : ω}
    {verdict : Except ε Verdict} (h : c.barrier completed steps world = (after, final, verdict)) :
    (c.recorded.inOrder schedule).barrier completed [steps] (world, record) =
      ([after], (final, record ++ [.called completed verdict]), verdict) := by
  simp only [inOrder, recorded, List.flatten_singleton, h]

theorem simulates (h : c.Solitary IsSteady raise effect) (schedule : Schedule) :
    (c.recorded.inOrder schedule).Simulates c fun batches world steps inner ↦
      batches = [steps] ∧ world.1 = inner ∧ ∀ step ∈ steps, IsSteady step where
  isTerminated := by
    rintro batches world steps inner ⟨_, rfl, _⟩
    rfl
  sweep := by
    rintro batches ⟨world, record⟩ steps inner iteration ⟨rfl, rfl, hsteps⟩
    obtain ⟨after, final, changed, reports, hsweep, hordered, hsteady, _⟩ :=
      h.sweep_inOrder schedule hsteps iteration world record
    exact ⟨_, _, _, _, _, hordered, hsweep, rfl, rfl, hsteady⟩
  barrier := by
    rintro batches ⟨world, record⟩ steps inner completed ⟨rfl, rfl, hsteps⟩
    have hsteady := h.steady_barrier completed world hsteps
    have hbarrier := barrier_inOrder c schedule completed steps world record rfl
    exact ⟨_, _, _, _, _, hbarrier, rfl, rfl, rfl, hsteady⟩

/-- In every order, a run ends with the same steps, world and result. -/
theorem runInOrder_eq_run (h : c.Solitary IsSteady raise effect) (schedule : Schedule)
    (hsteps : ∀ step ∈ steps, IsSteady step) (stops : Nat → Bool) (world : ω) :
    (c.runInOrder schedule stops steps world).1 = c.run stops steps world := by
  have hstart : [steps] = [steps] ∧ (world, ([] : List (Event ε))).1 = world ∧
      ∀ step ∈ steps, IsSteady step := ⟨rfl, rfl, hsteps⟩
  obtain ⟨hresult, hbatches, hworld, _⟩ :=
    (h.simulates schedule).iterate stops (UInt64.size - 1) 0 hstart
  rw [runInOrder, run, run, hresult, hbatches, hworld]
  simp [inOrder, recorded]

section Schedule

variable {schedule : Schedule} {batches swept : List (List σ)} {between later : ω × List (Event ε)}
variable {completed : Nat} {outcome : Except ε Bool}

theorem recorded_sweep (h : c.Solitary IsSteady raise effect)
    (hbatches : ∃ now, batches = [now] ∧ ∀ step ∈ now, IsSteady step)
    (hrecord : Recorded completed between.2)
    (hsweep : (c.recorded.inOrder schedule).sweep completed batches between =
      (swept, later, outcome)) :
    ∃ changed, outcome = .ok changed ∧ RecordedSweep completed changed later.2 ∧
      ∃ now, swept = [now] ∧ ∀ step ∈ now, IsSteady step := by
  obtain ⟨now, rfl, hsteps⟩ := hbatches
  obtain ⟨after, final, changed, reports, _, hordered, hsteady, hreports, hchanged⟩ :=
    h.sweep_inOrder schedule hsteps completed between.1 between.2
  obtain ⟨rfl, hrest⟩ := Prod.mk.inj (hsweep.symm.trans hordered)
  obtain ⟨rfl, rfl⟩ := Prod.mk.inj hrest
  exact ⟨changed, rfl, hrecord.sweep hreports hchanged, after, rfl, hsteady⟩

theorem recorded_barrier (h : c.Solitary IsSteady raise effect) {after : List (List σ)}
    {final : ω × List (Event ε)} {verdict : Except ε Verdict}
    (hswept : ∃ now, swept = [now] ∧ ∀ step ∈ now, IsSteady step)
    (hbarrier : (c.recorded.inOrder schedule).barrier completed swept later =
      (after, final, verdict)) :
    final.2 = later.2 ++ [.called completed verdict] ∧
      ∃ now, after = [now] ∧ ∀ step ∈ now, IsSteady step := by
  obtain ⟨now, rfl, hsteps⟩ := hswept
  have hpassed := barrier_inOrder c schedule completed now later.1 later.2 rfl
  obtain ⟨rfl, hrest⟩ := Prod.mk.inj (hbarrier.symm.trans hpassed)
  obtain ⟨rfl, rfl⟩ := Prod.mk.inj hrest
  exact ⟨rfl, _, rfl, h.steady_barrier completed later.1 hsteps⟩

theorem recorded_of_reaches (h : c.Solitary IsSteady raise effect)
    (hsteps : ∀ step ∈ steps, IsSteady step) {world : ω}
    (hreaches : (c.recorded.inOrder schedule).Reaches [steps] (world, []) completed batches
      between) :
    Recorded completed between.2 ∧ ∃ now, batches = [now] ∧ ∀ step ∈ now, IsSteady step := by
  induction hreaches with
  | start => exact ⟨⟨rfl, nofun, nofun⟩, steps, rfl, hsteps⟩
  | next _ hproceeds ih =>
    obtain ⟨hrecord, hbatches⟩ := ih
    obtain ⟨swept, later, hsweep, hbarrier⟩ := hproceeds
    obtain ⟨changed, hchanged, hreported, hswept⟩ := h.recorded_sweep hbatches hrecord hsweep
    obtain rfl := Except.ok.inj hchanged
    obtain ⟨hcalled, hafter⟩ := h.recorded_barrier hswept hbarrier
    exact ⟨hcalled ▸ hreported.proceed, hafter⟩

end Schedule

end Solitary

section Law

variable {c : Computation σ ω ε} {IsSteady : σ → Prop} {raise : ω → ω}
variable {effect : Nat → σ → Effect σ} {steps : List σ} {stops : Nat → Bool} {k : Nat}

theorem Solitary.record_of_stopped (h : c.Solitary IsSteady raise effect)
    (hsteps : ∀ step ∈ steps, IsSteady step) (schedule : Schedule) (world : ω)
    (hresult : (c.runInOrder schedule stops steps world).1.result = .ok ⟨k, false⟩) :
    stops k = true ∧ (∀ i < k, stops i = false) ∧
      Recorded k (c.runInOrder schedule stops steps world).2 := by
  obtain ⟨completed, batches, between, ended, _, hreaches, hgoing, hends, hrun⟩ :=
    (c.recorded.inOrder schedule).exists_ends stops [steps] (world, [])
  have hended : ended.result = .ok ⟨k, false⟩ := (congrArg Ended.result hrun).symm.trans hresult
  have hevents : (c.runInOrder schedule stops steps world).2 = ended.world.2 :=
    congrArg (·.world.2) hrun
  rw [hevents]
  cases hends with
  | stopped hstops =>
    obtain rfl : completed = k := congrArg Outcome.iterations (Except.ok.inj hended)
    exact ⟨hstops, hgoing, (h.recorded_of_reaches hsteps hreaches).1⟩
  | unchanged | halted => exact absurd (congrArg Outcome.didConverge (Except.ok.inj hended)) nofun
  | interrupted | exhausted | failed | barrierFailed => exact nomatch hended

theorem Solitary.record_of_converged (h : c.Solitary IsSteady raise effect)
    (hsteps : ∀ step ∈ steps, IsSteady step) (schedule : Schedule) (world : ω)
    (hresult : (c.runInOrder schedule stops steps world).1.result = .ok ⟨k, true⟩) :
    let record := (c.runInOrder schedule stops steps world).2
    ∃ last, k = last + 1 ∧ (∀ i ≤ last, stops i = false) ∧
      (RecordedSweep last false record ∨ ∃ earlier, RecordedSweep last true earlier ∧
        record = earlier ++ [.called k (.ok .halt)]) := by
  intro record
  obtain ⟨completed, batches, between, ended, _, hreaches, hgoing, hends, hrun⟩ :=
    (c.recorded.inOrder schedule).exists_ends stops [steps] (world, [])
  have hended : ended.result = .ok ⟨k, true⟩ := (congrArg Ended.result hrun).symm.trans hresult
  have hevents : record = ended.world.2 := congrArg (·.world.2) hrun
  obtain ⟨hrecord, hbatches⟩ := h.recorded_of_reaches hsteps hreaches
  have hextend (hstops : stops completed = false) : ∀ i ≤ completed, stops i = false := by
    intro i hi
    rcases Nat.lt_or_eq_of_le hi with hbefore | rfl
    · exact hgoing i hbefore
    · exact hstops
  rw [hevents]
  cases hends with
  | unchanged hstops hsweep =>
    obtain rfl : completed + 1 = k := congrArg Outcome.iterations (Except.ok.inj hended)
    obtain ⟨changed, hchanged, hreported, _⟩ := h.recorded_sweep hbatches hrecord hsweep
    obtain rfl := Except.ok.inj hchanged
    exact ⟨completed, rfl, hextend hstops, .inl hreported⟩
  | halted hstops hsweep hbarrier =>
    obtain rfl : completed + 1 = k := congrArg Outcome.iterations (Except.ok.inj hended)
    obtain ⟨changed, hchanged, hreported, hswept⟩ := h.recorded_sweep hbatches hrecord hsweep
    obtain rfl := Except.ok.inj hchanged
    obtain ⟨hcalled, _⟩ := h.recorded_barrier hswept hbarrier
    exact ⟨completed, rfl, hextend hstops, .inr ⟨_, hreported, hcalled⟩⟩
  | stopped => exact absurd (congrArg Outcome.didConverge (Except.ok.inj hended)) nofun
  | interrupted | exhausted | failed | barrierFailed => exact nomatch hended

/-- In every order, a run of steps that never fail and share nothing but the termination flag ends
with the same steps, world and result. If it has not converged, the rule stops it after iterations
that all made a change and that the barrier let proceed. If it has converged, nothing has changed in
the last iteration, or the barrier has halted the run after it. It is interrupted if the flag is up
after some iterations that the rule does not stop, and in no other case. -/
theorem runs_in_every_order_end_alike (h : c.Solitary IsSteady raise effect)
    (hsteps : ∀ step ∈ steps, IsSteady step) (schedule : Schedule) (stops : Nat → Bool)
    (world : ω) :
    let ended := (c.runInOrder schedule stops steps world).1
    let record := (c.runInOrder schedule stops steps world).2
    ended = c.run stops steps world ∧
    (∀ k, ended.result = .ok ⟨k, false⟩ →
      stops k = true ∧ (∀ i < k, stops i = false) ∧ (∀ i < k, .reported i (.ok true) ∈ record) ∧
        barrierCalls record = proceedingCalls k) ∧
    (∀ k, ended.result = .ok ⟨k, true⟩ →
      ∃ last, k = last + 1 ∧ (∀ i ≤ last, stops i = false) ∧
        (∀ i < last, .reported i (.ok true) ∈ record) ∧
        ((∀ outcome, .reported last outcome ∈ record → outcome = .ok false) ∧
            barrierCalls record = proceedingCalls last ∨
          .reported last (.ok true) ∈ record ∧
            barrierCalls record = proceedingCalls last ++ [(k, .ok .halt)])) ∧
    (ended.result = .error .interrupted ↔
      ∃ k now between, k < UInt64.size ∧ c.Reaches steps world k now between ∧
        (∀ i < k, stops i = false) ∧ c.isTerminated between = true) := by
  intro ended record
  have halike : ended = c.run stops steps world := h.runInOrder_eq_run schedule hsteps stops world
  refine ⟨halike, fun k hk ↦ ?_, fun k hk ↦ ?_, ?_⟩
  · obtain ⟨hstops, hgoing, hrecord⟩ := h.record_of_stopped hsteps schedule world hk
    exact ⟨hstops, hgoing, hrecord.changes, hrecord.calls⟩
  · obtain ⟨last, rfl, hgoing, hunchanged | ⟨earlier, hchange, hhalt⟩⟩ :=
      h.record_of_converged hsteps schedule world hk
    · exact ⟨last, rfl, hgoing, hunchanged.changes,
        .inl ⟨hunchanged.unchanged rfl, hunchanged.calls⟩⟩
    · simp only [record, hhalt, barrierCalls_append_called, hchange.calls]
      exact ⟨last, rfl, hgoing, fun i hi ↦ List.mem_append_left _ (hchange.changes i hi),
        .inr ⟨List.mem_append_left _ (hchange.change rfl), rfl⟩⟩
  · rw [halike]
    exact run_interrupted_iff

end Law

end Computation

/-! ## Scripts -/

/-- What a scripted step does on its own, unless it fails. -/
def ScriptedStep.effect (iteration : Nat) (step : ScriptedStep) : Effect ScriptedStep where
  after := { step with computed := step.computed + 1 }
  changed := step.changes.all (iteration < ·)
  raises := step.terminateAt == some iteration

theorem ScriptedBarrier.call_steps (barrier : ScriptedBarrier) (completed : Nat)
    (steps : List ScriptedStep) (world : ScriptWorld) :
    (barrier.call completed steps world).1 = steps := by
  unfold call
  split_ifs <;> rfl

theorem solitary_scripted (barrier : ScriptedBarrier) :
    (scripted barrier).Solitary (·.failAt = none)
      (fun world ↦ { world with isTerminated := true }) ScriptedStep.effect where
  compute_eq {step} iteration world hsteady := by
    have hworks : ¬ step.failAt = some iteration := hsteady ▸ nofun
    have hcompute : (scripted barrier).compute iteration step world =
        step.compute iteration world := rfl
    rw [hcompute, ScriptedStep.compute, if_neg hworks, ScriptedStep.effect]
    cases step.terminateAt == some iteration
    · simp
    · simp
  raise_raise world := rfl
  isTerminated_raise world := rfl
  steady_after iteration hsteady := hsteady
  steady_barrier {steps} completed world hsteady := by
    intro step hstep
    have hsteps : ((scripted barrier).barrier completed steps world).1 = steps :=
      barrier.call_steps completed steps world
    rw [hsteps] at hstep
    exact hsteady step hstep

/-- The steps compute from the last one to the first one. -/
def Schedule.backwards : Schedule where
  positions _ count := (List.range count).reverse
  perm _ count := (List.range count).reverse_perm

/-- Two scripted steps, with one and two iterations that change something. -/
def countdowns : List ScriptedStep := [⟨some 1, none, none, 0, 0⟩, ⟨some 2, none, none, 0, 0⟩]

theorem countdowns_end_alike_backwards :
    (∀ step ∈ countdowns, step.failAt = none) ∧
      let run := (scripted ⟨none, none, none⟩).runInOrder .backwards (fun _ ↦ false) countdowns
        ⟨false, []⟩
      run.1.result = .ok ⟨3, true⟩ ∧ ∀ i < 2, .reported i (.ok true) ∈ run.2 := by
  have hsteps : ∀ step ∈ countdowns, step.failAt = none := by decide
  obtain ⟨halike, _, hconverged, _⟩ := Computation.runs_in_every_order_end_alike
    (solitary_scripted ⟨none, none, none⟩) hsteps .backwards (fun _ ↦ false) ⟨false, []⟩
  have hresult : ((scripted ⟨none, none, none⟩).run (fun _ ↦ false) countdowns
      ⟨false, []⟩).result = .ok ⟨3, true⟩ := rfl
  obtain ⟨last, hlast, _, hchanges, _⟩ := hconverged 3 (halike ▸ hresult)
  obtain rfl : last = 2 := Nat.succ.inj hlast.symm
  exact ⟨hsteps, halike ▸ hresult, hchanges⟩

end PackedGraph
