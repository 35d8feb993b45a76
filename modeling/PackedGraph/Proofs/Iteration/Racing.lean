import Mathlib
import PackedGraph.Iteration.Script
import PackedGraph.Proofs.Iteration.Orders

/-!
# Runs that race

The steps of an iteration may race each other: they compute in any order, and after one of them has
failed, some of the others may still compute, and others may not. Whatever the race, and however a
run ends, it releases every step once, after everything else that it calls.
-/

namespace PackedGraph

/-- A call that a run makes: a step computes, the barrier is called, or a step is released. Steps
are known by their positions. -/
inductive EngineCall (ε : Type) where
  | computed (iteration position : Nat) (outcome : Except ε Bool)
  | barrier (completed : Nat) (verdict : Except ε Verdict)
  | released (position : Nat)

namespace EngineCall

variable {ε : Type}

def barrier? : EngineCall ε → Option (Nat × Except ε Verdict)
  | barrier completed verdict => some (completed, verdict)
  | computed _ _ _ | released _ => none

/-- The calls of the barrier in a record. -/
def barriers (record : List (EngineCall ε)) : List (Nat × Except ε Verdict) :=
  record.filterMap barrier?

end EngineCall

/-- What the steps of an iteration have reported, each with its position. -/
abbrev RaceReports (ε : Type) := List (Nat × Except ε Bool)

namespace RaceReports

variable {ε : Type} {reports : RaceReports ε}

def failures (reports : RaceReports ε) : List ε :=
  reports.filterMap fun report ↦
    match report.2 with
    | .error e => some e
    | .ok _ => none

/-- One of the failures, if there are any, and otherwise whether some step reports a change. -/
def outcome (choice : Nat) (reports : RaceReports ε) : Except ε Bool :=
  match reports.failures[choice % reports.failures.length]? with
  | some e => .error e
  | none => .ok (reports.any fun report ↦ report.2 matches .ok true)

/-- The reports as calls in an iteration. -/
def calls (iteration : Nat) (reports : RaceReports ε) : List (EngineCall ε) :=
  reports.map fun report ↦ .computed iteration report.1 report.2

theorem mem_failures_iff {e : ε} :
    e ∈ reports.failures ↔ ∃ position, (position, .error e) ∈ reports := by
  rw [failures, List.mem_filterMap]
  constructor
  · rintro ⟨⟨position, _ | _⟩, hreport, hfailure⟩
    · obtain rfl := Option.some.inj hfailure
      exact ⟨position, hreport⟩
    · exact absurd hfailure nofun
  · rintro ⟨position, hreport⟩
    exact ⟨_, hreport, rfl⟩

theorem outcome_cons_ok (choice position : Nat) (flag : Bool) (reports : RaceReports ε) :
    outcome choice ((position, .ok flag) :: reports) =
      (reports.outcome choice).map (flag || ·) := by
  have hfailures : failures ((position, .ok flag) :: reports) = reports.failures :=
    List.filterMap_cons_none rfl
  rw [outcome, outcome, hfailures]
  cases reports.failures[choice % reports.failures.length]? with
  | some e => rfl
  | none => cases flag <;> rfl

theorem exists_mem_of_outcome {choice : Nat} {e : ε} (h : reports.outcome choice = .error e) :
    ∃ position, (position, .error e) ∈ reports := by
  unfold outcome at h
  split at h
  · next failure hfailure =>
    obtain rfl := Except.error.inj h
    exact mem_failures_iff.mp (List.mem_of_getElem? hfailure)
  · exact absurd h nofun

theorem notMem_of_outcome {choice : Nat} {flag : Bool} (h : reports.outcome choice = .ok flag)
    (position : Nat) (e : ε) : (position, .error e) ∉ reports := by
  intro hreport
  have hfailure : e ∈ reports.failures := mem_failures_iff.mpr ⟨position, hreport⟩
  have hlt : choice % reports.failures.length < reports.failures.length :=
    Nat.mod_lt _ (List.length_pos_of_mem hfailure)
  rw [outcome, List.getElem?_eq_getElem hlt] at h
  exact absurd h nofun

@[simp] theorem mem_calls_iff {iteration i position : Nat} {outcome : Except ε Bool} :
    .computed i position outcome ∈ reports.calls iteration ↔
      i = iteration ∧ (position, outcome) ∈ reports := by
  rw [calls, List.mem_map]
  constructor
  · rintro ⟨report, hreport, heq⟩
    obtain ⟨rfl, rfl, rfl⟩ := EngineCall.computed.inj heq
    exact ⟨rfl, hreport⟩
  · rintro ⟨rfl, hreport⟩
    exact ⟨_, hreport, rfl⟩

end RaceReports

/-- A schedule that also says, for each iteration, how many steps at most still compute after one
has failed, and which failure is reported. -/
structure Race extends Schedule where
  late : Nat → Nat
  choice : Nat → Nat

/-- The steps of a run together, with a record of the calls that have been made. -/
structure Batch (σ ε : Type) where
  steps : List σ
  record : List (EngineCall ε)

namespace Computation

variable {σ ω ε : Type}

/-- An iteration in which the steps at some positions race. At most an allowed number of them
compute, and after one that fails, no more than the late ones. -/
def sweepRacing (c : Computation σ ω ε) (iteration late : Nat) :
    Nat → List Nat → List σ → ω → List σ × ω × RaceReports ε
  | allowed + 1, position :: positions, steps, world =>
    match steps[position]? with
    | none => c.sweepRacing iteration late allowed positions steps world
    | some step =>
      let (step, world, outcome) := c.compute iteration step world
      let allowed := if outcome.isOk then allowed else min allowed late
      let (steps, world, reports) :=
        c.sweepRacing iteration late allowed positions (steps.set position step) world
      (steps, world, (position, outcome) :: reports)
  | _, _, steps, world => (steps, world, [])

/-- The computation in which the steps race. All steps together are a single step of it, which
records all calls. -/
def racing (c : Computation σ ω ε) (race : Race) : Computation (Batch σ ε) ω ε where
  compute iteration batch world :=
    let count := batch.steps.length
    let (steps, world, reports) := c.sweepRacing iteration (race.late iteration) count
      (race.positions iteration count) batch.steps world
    (⟨steps, batch.record ++ reports.calls iteration⟩, world,
      reports.outcome (race.choice iteration))
  release batch :=
    ⟨batch.steps.map c.release, batch.record ++ (List.range batch.steps.length).map .released⟩
  barrier completed batches world :=
    let (steps, world, verdict) := c.barrier completed (batches.flatMap Batch.steps) world
    ([⟨steps, batches.flatMap Batch.record ++ [.barrier completed verdict]⟩], world, verdict)
  isTerminated := c.isTerminated

end Computation

/-- A run of a computation with a stopping rule, in which the steps race. -/
structure RacingRun (σ ω ε : Type) where
  computation : Computation σ ω ε
  stops : Nat → Bool
  race : Race

/-- How a run has ended, and the calls that it has made. -/
structure RacingEnd (σ ω ε : Type) where
  ended : Ended σ ω ε
  record : List (EngineCall ε)

/-- The steps compute one after another, up to the first that fails. -/
def Race.inTurn : Race where
  positions _ count := List.range count
  perm _ count := .refl (List.range count)
  late _ := 0
  choice _ := 0

namespace RacingRun

variable {σ ω ε : Type}

def perform (run : RacingRun σ ω ε) (steps : List σ) (world : ω) : RacingEnd σ ω ε :=
  let ended := (run.computation.racing run.race).run run.stops [⟨steps, []⟩] world
  ⟨⟨ended.steps.flatMap Batch.steps, ended.world, ended.result⟩, ended.steps.flatMap Batch.record⟩

/-- Runs on the same steps, one after another. -/
def performAll : List (RacingRun σ ω ε) → List σ → ω → List (RacingEnd σ ω ε)
  | [], _, _ => []
  | run :: runs, steps, world =>
    let last := run.perform steps world
    last :: performAll runs last.ended.steps last.ended.world

end RacingRun

/-! ## What a record says -/

/-- No step of a batch has been released, and none has failed. -/
structure Batch.IsCalm {σ ε : Type} (count : Nat) (batch : Batch σ ε) : Prop where
  length_eq : batch.steps.length = count
  unreleased : ∀ position, .released position ∉ batch.record
  unfailed : ∀ i position e, .computed i position (.error e) ∉ batch.record

/-- So many iterations have begun, and so many of them have passed the barrier. -/
structure Batch.Reached {σ ε : Type} (count begun passed : Nat) (batch : Batch σ ε) : Prop
    extends batch.IsCalm count where
  barriers_eq : EngineCall.barriers batch.record = proceedingCalls passed
  past : ∀ i position outcome, .computed i position outcome ∈ batch.record → i < begun

/-- What the record of a batch says of a result: if a step has failed, it was in the last iteration,
and the result names it. -/
structure Batch.Explains {σ ε : Type} (count : Nat) (batch : Batch σ ε)
    (result : Except (RunError ε) Outcome) : Prop where
  length_eq : batch.steps.length = count
  unreleased : ∀ position, .released position ∉ batch.record
  failed : ∀ i position e, .computed i position (.error e) ∈ batch.record →
    (∃ other cause, .computed i other (.error cause) ∈ batch.record ∧
      result = .error (.step (i + 1) cause)) ∧
    EngineCall.barriers batch.record = proceedingCalls i ∧
    ∀ j other outcome, .computed j other outcome ∈ batch.record → j ≤ i

section

variable {σ ω ε : Type} {c : Computation σ ω ε} {race : Race} {count completed : Nat}
variable {batch : Batch σ ε} {steps after : List σ} {record : List (EngineCall ε)}
variable {reports : RaceReports ε}

@[simp] theorem EngineCall.barriers_append (record later : List (EngineCall ε)) :
    barriers (record ++ later) = barriers record ++ barriers later := List.filterMap_append

@[simp] theorem RaceReports.barriers_calls (iteration : Nat) (reports : RaceReports ε) :
    EngineCall.barriers (reports.calls iteration) = [] := by
  rw [EngineCall.barriers, calls, List.filterMap_map]
  exact List.filterMap_eq_nil_iff.mpr fun _ _ ↦ rfl

@[simp] theorem RaceReports.released_notMem_calls (iteration position : Nat)
    (reports : RaceReports ε) : .released position ∉ reports.calls iteration := by
  rw [calls, List.mem_map]
  rintro ⟨_, _, heq⟩
  exact absurd heq nofun

@[simp] theorem EngineCall.barriers_releases (positions : List Nat) :
    (barriers (positions.map .released) : List (Nat × Except ε Verdict)) = [] := by
  rw [barriers, List.filterMap_map]
  exact List.filterMap_eq_nil_iff.mpr fun _ _ ↦ rfl

theorem Batch.IsCalm.explains (h : batch.IsCalm count) (result : Except (RunError ε) Outcome) :
    batch.Explains count result :=
  ⟨h.length_eq, h.unreleased, fun i position e hmem ↦ absurd hmem (h.unfailed i position e)⟩

/-- An iteration in which no step fails. -/
theorem Batch.IsCalm.append_calls (h : batch.IsCalm count) (hlength : after.length = count)
    {choice : Nat} {flag : Bool} (hreports : reports.outcome choice = .ok flag) (iteration : Nat) :
    Batch.IsCalm count ⟨after, batch.record ++ reports.calls iteration⟩ where
  length_eq := hlength
  unreleased position := by simp [h.unreleased]
  unfailed i position e := by simp [h.unfailed, RaceReports.notMem_of_outcome hreports]

theorem Batch.IsCalm.append_barrier (h : batch.IsCalm count) (hlength : after.length = count)
    (verdict : Except ε Verdict) :
    Batch.IsCalm count ⟨after, batch.record ++ [.barrier completed verdict]⟩ where
  length_eq := hlength
  unreleased position := by simp [h.unreleased]
  unfailed i position e := by simp [h.unfailed]

theorem Batch.Reached.append_calls (h : batch.Reached count completed completed)
    (hlength : after.length = count) {choice : Nat} {flag : Bool}
    (hreports : reports.outcome choice = .ok flag) :
    Batch.Reached count (completed + 1) completed
      ⟨after, batch.record ++ reports.calls completed⟩ where
  toIsCalm := h.toIsCalm.append_calls hlength hreports completed
  barriers_eq := by simp [h.barriers_eq]
  past i position outcome hmem := by
    rcases List.mem_append.mp hmem with hold | hnew
    · exact Nat.lt_succ_of_lt (h.past i position outcome hold)
    · exact Nat.lt_succ_of_le (RaceReports.mem_calls_iff.mp hnew).1.le

theorem Batch.Reached.append_barrier (h : batch.Reached count (completed + 1) completed)
    (hlength : after.length = count) :
    Batch.Reached count (completed + 1) (completed + 1)
      ⟨after, batch.record ++ [.barrier (completed + 1) (.ok .proceed)]⟩ where
  toIsCalm := h.toIsCalm.append_barrier hlength _
  barriers_eq := by
    rw [EngineCall.barriers_append, h.barriers_eq, proceedingCalls_succ]
    rfl
  past i position outcome hmem := by
    rcases List.mem_append.mp hmem with hold | hnew
    · exact h.past i position outcome hold
    · exact absurd (List.mem_singleton.mp hnew) nofun

/-- An iteration in which a step fails. -/
theorem Batch.Reached.append_failed_calls (h : batch.Reached count completed completed)
    (hlength : after.length = count) {choice : Nat} {e : ε}
    (hreports : reports.outcome choice = .error e) :
    Batch.Explains count ⟨after, batch.record ++ reports.calls completed⟩
      (.error (.step (completed + 1) e)) where
  length_eq := hlength
  unreleased position := by simp [h.unreleased]
  failed i position cause hmem := by
    rcases List.mem_append.mp hmem with hold | hnew
    · exact absurd hold (h.unfailed i position cause)
    obtain ⟨rfl, _⟩ := RaceReports.mem_calls_iff.mp hnew
    obtain ⟨other, hother⟩ := RaceReports.exists_mem_of_outcome hreports
    have hcause : .computed i other (.error e) ∈ reports.calls i :=
      RaceReports.mem_calls_iff.mpr ⟨rfl, hother⟩
    refine ⟨⟨other, e, List.mem_append_right _ hcause, rfl⟩, by simp [h.barriers_eq],
      fun j other outcome hany ↦ ?_⟩
    rcases List.mem_append.mp hany with hold | hnew
    · exact (h.past j other outcome hold).le
    · exact (RaceReports.mem_calls_iff.mp hnew).1.le

/-! ## The course of a run -/

namespace Computation

/-- The barrier updates the steps where they are. -/
def KeepsCount (c : Computation σ ω ε) : Prop :=
  ∀ completed steps world, (c.barrier completed steps world).1.length = steps.length

theorem length_sweepRacing (c : Computation σ ω ε) (iteration late allowed : Nat)
    (positions : List Nat) (steps : List σ) (world : ω) :
    (c.sweepRacing iteration late allowed positions steps world).1.length = steps.length := by
  induction positions generalizing allowed steps world with
  | nil => cases allowed <;> rfl
  | cons position positions ih =>
    cases allowed with
    | zero => rfl
    | succ allowed =>
      rw [sweepRacing]
      cases steps[position]? with
      | none => exact ih allowed steps world
      | some step => exact (ih _ _ _).trans List.length_set

/-- What an iteration of racing steps adds to the record. -/
theorem sweep_racing {iteration : Nat} {world final : ω}
    (h : c.sweepRacing iteration (race.late iteration) batch.steps.length
      (race.positions iteration batch.steps.length) batch.steps world = (after, final, reports)) :
    (c.racing race).sweep iteration [batch] world =
      ([⟨after, batch.record ++ reports.calls iteration⟩], final,
        reports.outcome (race.choice iteration)) := by
  simp only [sweep, racing, h]
  cases reports.outcome (race.choice iteration) with
  | error e => rfl
  | ok flag => simp only [Except.map, Bool.or_false]

theorem barrier_racing {world final : ω} {verdict : Except ε Verdict}
    (h : c.barrier completed batch.steps world = (after, final, verdict)) :
    (c.racing race).barrier completed [batch] world =
      ([⟨after, batch.record ++ [.barrier completed verdict]⟩], final, verdict) := by
  simp only [racing, List.flatMap_singleton, h]

theorem exists_of_sweep_racing {swept : List (Batch σ ε)} {world later : ω}
    {outcome : Except ε Bool}
    (h : (c.racing race).sweep completed [batch] world = (swept, later, outcome)) :
    ∃ after reports, swept = [⟨after, batch.record ++ RaceReports.calls completed reports⟩] ∧
      outcome = RaceReports.outcome (race.choice completed) reports ∧
      after.length = batch.steps.length := by
  have hlength := c.length_sweepRacing completed (race.late completed) batch.steps.length
    (race.positions completed batch.steps.length) batch.steps world
  rcases hracing : c.sweepRacing completed (race.late completed) batch.steps.length
    (race.positions completed batch.steps.length) batch.steps world with ⟨after, final, reports⟩
  rw [hracing] at hlength
  obtain ⟨rfl, hrest⟩ := Prod.mk.inj (h.symm.trans (sweep_racing hracing))
  exact ⟨after, reports, rfl, congrArg Prod.snd hrest, hlength⟩

/-- After an iteration without a failure, the barrier is next. -/
theorem exists_reached_of_sweep (hreached : batch.Reached count completed completed)
    {swept : List (Batch σ ε)} {world later : ω} {changed : Bool}
    (h : (c.racing race).sweep completed [batch] world = (swept, later, .ok changed)) :
    ∃ next : Batch σ ε, swept = [next] ∧ next.Reached count (completed + 1) completed := by
  obtain ⟨after, reports, rfl, houtcome, hlength⟩ := exists_of_sweep_racing h
  exact ⟨_, rfl, hreached.append_calls (hlength.trans hreached.length_eq) houtcome.symm⟩

theorem KeepsCount.exists_of_barrier_racing (hkeeps : c.KeepsCount) {passed : List (Batch σ ε)}
    {world final : ω} {verdict : Except ε Verdict}
    (h : (c.racing race).barrier completed [batch] world = (passed, final, verdict)) :
    ∃ after, passed = [⟨after, batch.record ++ [.barrier completed verdict]⟩] ∧
      after.length = batch.steps.length := by
  have hlength := hkeeps completed batch.steps world
  rcases hbarrier : c.barrier completed batch.steps world with ⟨after, later, answer⟩
  rw [hbarrier] at hlength
  obtain ⟨rfl, hrest⟩ := Prod.mk.inj (h.symm.trans (barrier_racing hbarrier))
  obtain rfl : verdict = answer := congrArg Prod.snd hrest
  exact ⟨after, rfl, hlength⟩

/-- What the record says where a run proceeds. -/
theorem KeepsCount.reached (hkeeps : c.KeepsCount) {batches : List (Batch σ ε)} {world between : ω}
    (h : (c.racing race).Reaches [⟨steps, []⟩] world completed batches between) :
    ∃ batch, batches = [batch] ∧ batch.Reached steps.length completed completed := by
  induction h with
  | start => exact ⟨_, rfl, ⟨rfl, nofun, nofun⟩, rfl, nofun⟩
  | next _ hproceeds ih =>
    obtain ⟨batch, rfl, hreached⟩ := ih
    obtain ⟨swept, later, hsweep, hbarrier⟩ := hproceeds
    obtain ⟨next, rfl, hswept⟩ := exists_reached_of_sweep hreached hsweep
    obtain ⟨after, rfl, hpassed⟩ := hkeeps.exists_of_barrier_racing hbarrier
    exact ⟨_, rfl, hswept.append_barrier (hpassed.trans hswept.length_eq)⟩

/-- What the record says where a run ends, before it releases the steps. -/
theorem KeepsCount.explains (hkeeps : c.KeepsCount) {stops : Nat → Bool} {limit : Nat} {between : ω}
    {ended : Ended (Batch σ ε) ω ε} (hreached : batch.Reached count completed completed)
    (h : (c.racing race).Ends stops limit completed [batch] between ended) :
    ∃ last, ended.steps = [last] ∧ last.Explains count ended.result := by
  cases h with
  | interrupted | stopped | exhausted => exact ⟨batch, rfl, hreached.toIsCalm.explains _⟩
  | failed hsweep =>
    obtain ⟨after, reports, rfl, houtcome, hlength⟩ := exists_of_sweep_racing hsweep
    exact ⟨_, rfl, hreached.append_failed_calls (hlength.trans hreached.length_eq) houtcome.symm⟩
  | unchanged _ hsweep =>
    obtain ⟨next, rfl, hswept⟩ := exists_reached_of_sweep hreached hsweep
    exact ⟨next, rfl, hswept.toIsCalm.explains _⟩
  | barrierFailed hsweep hbarrier | halted _ hsweep hbarrier =>
    obtain ⟨next, rfl, hswept⟩ := exists_reached_of_sweep hreached hsweep
    obtain ⟨after, rfl, hpassed⟩ := hkeeps.exists_of_barrier_racing hbarrier
    exact ⟨_, rfl,
      (hswept.toIsCalm.append_barrier (hpassed.trans hswept.length_eq) _).explains _⟩

/-! ## Steps in turn -/

theorem sweepRacing_zero (c : Computation σ ω ε) (iteration late : Nat) (positions : List Nat)
    (steps : List σ) (world : ω) :
    c.sweepRacing iteration late 0 positions steps world = (steps, world, []) := by
  cases positions <;> rfl

theorem sweepRacing_inTurn (c : Computation σ ω ε) (iteration : Nat) (done rest : List σ)
    (world : ω) :
    ∃ after final reports, c.sweepRacing iteration 0 rest.length
        (List.range' done.length rest.length) (done ++ rest) world =
          (done ++ after, final, reports) ∧
      c.sweep iteration rest world = (after, final, RaceReports.outcome 0 reports) := by
  induction rest generalizing done world with
  | nil => exact ⟨[], world, [], rfl, rfl⟩
  | cons step rest ih =>
    have hstep : (done ++ step :: rest)[done.length]? = some step := by
      rw [List.getElem?_append_right (Nat.le_refl _), Nat.sub_self, List.getElem?_cons_zero]
    have hset (moved : σ) :
        (done ++ step :: rest).set done.length moved = done ++ moved :: rest := by
      rw [List.set_append_right _ _ (Nat.le_refl _), Nat.sub_self, List.set_cons_zero]
    rw [List.length_cons, List.range'_succ, sweepRacing, hstep, sweep]
    rcases hcompute : c.compute iteration step world with ⟨moved, between, e | flag⟩
    · refine ⟨moved :: rest, between, [(done.length, .error e)], ?_, rfl⟩
      simp only [hcompute, hset, Except.isOk, Except.toBool, Bool.false_eq_true, if_false,
        Nat.min_zero, sweepRacing_zero]
    · obtain ⟨after, final, reports, hracing, hsweep⟩ := ih (done ++ [moved]) between
      rw [List.length_append, List.length_singleton, List.append_assoc, List.append_assoc,
        List.singleton_append, List.singleton_append] at hracing
      refine ⟨moved :: after, final, (done.length, .ok flag) :: reports, ?_, ?_⟩
      · simp only [hcompute, hset, Except.isOk, Except.toBool, if_true, hracing]
      · simp only [hsweep, RaceReports.outcome_cons_ok]

theorem simulates_racing_inTurn (c : Computation σ ω ε) :
    (c.racing .inTurn).Simulates c fun batches world steps outside ↦
      (∃ record, batches = [⟨steps, record⟩]) ∧ world = outside where
  isTerminated := by
    rintro batches world steps _ ⟨_, rfl⟩
    rfl
  sweep := by
    rintro batches world steps _ iteration ⟨⟨record, rfl⟩, rfl⟩
    obtain ⟨after, final, reports, hracing, hsweep⟩ := c.sweepRacing_inTurn iteration [] steps world
    rw [List.length_nil, ← List.range_eq_range', List.nil_append, List.nil_append] at hracing
    have hbatch : (c.racing .inTurn).sweep iteration [⟨steps, record⟩] world = _ :=
      sweep_racing hracing
    exact ⟨_, _, _, _, _, hbatch, hsweep, ⟨_, rfl⟩, rfl⟩
  barrier := by
    rintro batches world steps _ completed ⟨⟨record, rfl⟩, rfl⟩
    have hbatch : (c.racing .inTurn).barrier completed [⟨steps, record⟩] world = _ :=
      barrier_racing rfl
    exact ⟨_, _, _, _, _, hbatch, rfl, ⟨_, rfl⟩, rfl⟩

end Computation

end

/-- When the steps compute in turn, a run ends as the computation does. -/
theorem RacingRun.ended_perform_inTurn {σ ω ε : Type} (c : Computation σ ω ε) (stops : Nat → Bool)
    (steps : List σ) (world : ω) :
    (RacingRun.perform ⟨c, stops, .inTurn⟩ steps world).ended = c.run stops steps world := by
  obtain ⟨hresult, ⟨record, hbatches⟩, hworld⟩ :=
    c.simulates_racing_inTurn.iterate stops (UInt64.size - 1) 0 ⟨⟨[], rfl⟩, rfl⟩
  rw [perform, Computation.run, Computation.run, hresult, hbatches, hworld]
  simp only [Computation.racing, List.map_singleton, List.flatMap_singleton]

/-- What a run does at the end, and what the record says before. -/
theorem RacingRun.exists_explains {σ ω ε : Type} {run : RacingRun σ ω ε}
    (hkeeps : run.computation.KeepsCount) (steps : List σ) (world : ω) :
    ∃ last : Batch σ ε, last.Explains steps.length (run.perform steps world).ended.result ∧
      (run.perform steps world).ended.steps = last.steps.map run.computation.release ∧
      (run.perform steps world).record =
        last.record ++ (List.range steps.length).map .released := by
  obtain ⟨k, batches, between, ended, _, hreaches, _, hends, hrun⟩ :=
    (run.computation.racing run.race).exists_ends run.stops [⟨steps, []⟩] world
  obtain ⟨batch, rfl, hreached⟩ := hkeeps.reached hreaches
  obtain ⟨last, hlast, hexplains⟩ := hkeeps.explains hreached hends
  refine ⟨last, ?_, ?_, ?_⟩
  · rw [perform, hrun]
    exact hexplains
  · rw [perform, hrun, hlast]
    exact List.flatMap_singleton ..
  · rw [perform, hrun, hlast, ← hexplains.length_eq]
    exact List.flatMap_singleton ..

/-- A run on so many steps ends as it should: it releases each step once, after everything else that
it calls. If a step fails, the error names the iteration, which is the last one, and a failure in
it, and the barrier has been called after each of the earlier iterations, and not again. -/
structure RacingRun.EndsProperly {σ ω ε : Type} (run : RacingRun σ ω ε) (count : Nat)
    (last : RacingEnd σ ω ε) : Prop where
  released : ∃ (before : List σ) (during : List (EngineCall ε)), before.length = count ∧
    last.ended.steps = before.map run.computation.release ∧
    last.record = during ++ (List.range count).map .released ∧
    ∀ position, .released position ∉ during
  failed : ∀ i position e, .computed i position (.error e) ∈ last.record →
    (∃ other cause error, .computed i other (.error cause) ∈ last.record ∧
      last.ended.result = .error error ∧ error = .step (i + 1) cause ∧
      ∀ text : ε → String, error.message text =
        s!"Compute step failed at iteration {i + 1}: " ++ text cause) ∧
    EngineCall.barriers last.record = proceedingCalls i ∧
    ∀ j other outcome, .computed j other outcome ∈ last.record → j ≤ i

theorem RacingRun.endsProperly_perform {σ ω ε : Type} {run : RacingRun σ ω ε}
    (hkeeps : run.computation.KeepsCount) (steps : List σ) (world : ω) :
    run.EndsProperly steps.length (run.perform steps world) := by
  obtain ⟨last, hexplains, hsteps, hrecord⟩ := exists_explains hkeeps steps world
  have hcomputed {i position : Nat} {outcome : Except ε Bool} :
      .computed i position outcome ∈ (run.perform steps world).record ↔
        .computed i position outcome ∈ last.record := by
    simp [hrecord]
  have hbarriers : EngineCall.barriers (run.perform steps world).record =
      EngineCall.barriers last.record := by
    simp [hrecord]
  refine ⟨⟨last.steps, last.record, hexplains.length_eq, hsteps, hrecord, hexplains.unreleased⟩,
    fun i position e hfailed ↦ ?_⟩
  obtain ⟨⟨other, cause, hcause, hresult⟩, hpassed, hlast⟩ :=
    hexplains.failed i position e (hcomputed.mp hfailed)
  refine ⟨⟨other, cause, _, hcomputed.mpr hcause, hresult, rfl, fun _ ↦ rfl⟩,
    hbarriers.trans hpassed, fun j other outcome hany ↦ hlast j other outcome (hcomputed.mp hany)⟩

theorem RacingRun.endsProperly_performAll {σ ω ε : Type} {runs : List (RacingRun σ ω ε)}
    (hkeeps : ∀ run ∈ runs, run.computation.KeepsCount) (steps : List σ) (world : ω) :
    List.Forall₂ (fun run last ↦ run.EndsProperly steps.length last) runs
      (performAll runs steps world) := by
  induction runs generalizing steps world with
  | nil => exact .nil
  | cons run runs ih =>
    obtain ⟨hrun, hruns⟩ := List.forall_mem_cons.mp hkeeps
    have hends := endsProperly_perform hrun steps world
    obtain ⟨before, _, hlength, hsteps, _⟩ := hends.released
    have hcount : (run.perform steps world).ended.steps.length = steps.length := by
      rw [hsteps, List.length_map, hlength]
    have hrest := ih hruns (run.perform steps world).ended.steps
      (run.perform steps world).ended.world
    rw [hcount] at hrest
    exact .cons hends hrest

/-- Any number of runs on the same steps, in which the steps race, all end as they should. If the
steps of a run computed in turn instead, up to the first that fails, it would end as the run of the
computation does. -/
theorem every_exit_releases_each_step_once {σ ω ε : Type} {runs : List (RacingRun σ ω ε)}
    (hkeeps : ∀ run ∈ runs, run.computation.KeepsCount) (steps : List σ) (world : ω) :
    List.Forall₂ (fun run last ↦ run.EndsProperly steps.length last) runs
        (RacingRun.performAll runs steps world) ∧
      ∀ run ∈ runs, ∀ before between,
        (RacingRun.perform { run with race := .inTurn } before between).ended =
          run.computation.run run.stops before between :=
  ⟨RacingRun.endsProperly_performAll hkeeps steps world, fun run _ before between ↦
    RacingRun.ended_perform_inTurn run.computation run.stops before between⟩

theorem keepsCount_scripted (barrier : ScriptedBarrier) : (scripted barrier).KeepsCount :=
  fun completed steps world ↦ congrArg List.length (barrier.call_steps completed steps world)

/-- Three scripted steps, of which the last two fail in the second iteration. -/
def stumblers : List ScriptedStep :=
  [⟨none, none, none, 0, 0⟩, ⟨none, some 1, none, 0, 0⟩, ⟨none, some 1, none, 0, 0⟩]

/-- The steps compute from the last one to the first one, and one more after a failure. -/
def lateRace : Race := { Schedule.backwards with late := fun _ ↦ 1, choice := fun _ ↦ 1 }

/-- Two runs, of which the second one stops after an iteration. -/
def stumblingRuns : List (RacingRun ScriptedStep ScriptWorld ScriptFailure) :=
  [⟨scripted ⟨none, none, none⟩, fun _ ↦ false, lateRace⟩,
    ⟨scripted ⟨none, none, none⟩, (1 ≤ ·), lateRace⟩]

theorem stumblers_are_released_by_both_runs :
    (∀ run ∈ stumblingRuns, run.computation.KeepsCount) ∧
      ∃ first second, RacingRun.performAll stumblingRuns stumblers ⟨false, []⟩ = [first, second] ∧
        first.ended.result = .error (.step 2 .batch) ∧
        EngineCall.barriers first.record = [(1, .ok .proceed)] ∧
        second.ended.result = .ok ⟨1, false⟩ ∧
        second.ended.steps.map ScriptedStep.released = [2, 2, 2] ∧
        ((scripted ⟨none, none, none⟩).run (fun _ ↦ false) stumblers ⟨false, []⟩).result =
          .error (.step 2 .batch) ∧
        ∃ during, second.record = during ++ [.released 0, .released 1, .released 2] ∧
          ∀ position, .released position ∉ during := by
  have hkeeps : ∀ run ∈ stumblingRuns, run.computation.KeepsCount := by
    rintro run hrun
    rcases List.mem_pair.mp hrun with rfl | rfl
    · exact keepsCount_scripted _
    · exact keepsCount_scripted _
  obtain ⟨hends, hinTurn⟩ := every_exit_releases_each_step_once hkeeps stumblers ⟨false, []⟩
  obtain ⟨hfirst, hrest⟩ := List.forall₂_cons.mp hends
  obtain ⟨hsecond, _⟩ := List.forall₂_cons.mp hrest
  refine ⟨hkeeps, _, _, rfl, rfl, ?_, rfl, rfl, ?_, ?_⟩
  · exact (hfirst.failed 1 2 .batch (List.mem_of_getElem? (i := 4) rfl)).2.1
  · rw [← hinTurn _ List.mem_cons_self stumblers ⟨false, []⟩]
    rfl
  · obtain ⟨_, during, _, _, hrecord, hduring⟩ := hsecond.released
    exact ⟨during, hrecord, hduring⟩

end PackedGraph
