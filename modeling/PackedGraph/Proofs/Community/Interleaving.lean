import Mathlib
import PackedGraph.Community.LabelProgram

/-!
# Interleaved programs

Several programs run at the same time, one access to the buffers after another, in an order that a
schedule chooses. When no program writes a cell that another one may access, each of them reads what
it would read alone, so all schedules that end all programs lead to the same labels and results.
-/

namespace PackedGraph

/-! ## Cells -/

theorem getElem?_setIfInBounds_eq (labels : Array UInt64) (cell i : Nat) (label : UInt64) :
    (labels.setIfInBounds cell label)[i]? =
      if i = cell then labels[cell]?.map fun _ ↦ label else labels[i]? := by
  rw [Array.getElem?_setIfInBounds]
  by_cases hcell : i = cell
  · rw [if_pos hcell.symm, if_pos hcell]
    by_cases hsize : cell < labels.size
    · rw [if_pos hsize, Array.getElem?_eq_getElem hsize]
      rfl
    · rw [if_neg hsize, Array.getElem?_eq_none (Nat.le_of_not_lt hsize)]
      rfl
  · rw [if_neg (Ne.symm hcell), if_neg hcell]

namespace LabelBuffers

theorem ext_read {buffers others : LabelBuffers}
    (h : ∀ buffer cell, buffers.read buffer cell = others.read buffer cell) : buffers = others := by
  have hfirst : buffers.first = others.first := Array.ext_getElem? (h .first)
  have hsecond : buffers.second = others.second := Array.ext_getElem? (h .second)
  cases buffers
  cases others
  exact congrArg₂ LabelBuffers.mk hfirst hsecond

theorem labels_congr {buffers others : LabelBuffers} {buffer : Buffer}
    (h : ∀ cell, buffers.read buffer cell = others.read buffer cell) :
    buffers.labels buffer = others.labels buffer :=
  Array.ext_getElem? h

/-- A write is seen in its own cell, and nowhere else. -/
theorem read_write (buffers : LabelBuffers) (buffer other : Buffer) (cell i : Nat)
    (label : UInt64) :
    (buffers.write buffer cell label).read other i =
      if other = buffer ∧ i = cell then (buffers.read buffer cell).map fun _ ↦ label
      else buffers.read other i := by
  have hset (labels : Array UInt64) := getElem?_setIfInBounds_eq labels cell i label
  cases buffer with
  | first =>
    cases other with
    | first => simpa [read, write, labels] using hset buffers.first
    | second => simp [read, write, labels]
  | second =>
    cases other with
    | first => simp [read, write, labels]
    | second => simpa [read, write, labels] using hset buffers.second

/-- Two contents of the buffers agree on some cells. -/
def AgreeOn (cells : Buffer → Nat → Prop) (buffers others : LabelBuffers) : Prop :=
  ∀ buffer cell, cells buffer cell → buffers.read buffer cell = others.read buffer cell

end LabelBuffers

/-- An access of a program to a cell. -/
structure Access where
  buffer : Buffer
  cell : Nat
  isWrite : Bool
deriving DecidableEq

/-- Some kind of access to a cell is permitted. -/
def Sees (permits : Access → Prop) (buffer : Buffer) (cell : Nat) : Prop :=
  ∃ isWrite, permits ⟨buffer, cell, isWrite⟩

namespace LabelProgram

variable {ε α β : Type}

/-- The access that a program makes next, unless it has ended. -/
def access? : LabelProgram ε α → Option Access
  | done _ | fail _ => none
  | read buffer cell _ => some ⟨buffer, cell, false⟩
  | write buffer cell _ _ => some ⟨buffer, cell, true⟩

/-- How a program has ended, if it has. -/
def outcome? : LabelProgram ε α → Option (Except ε α)
  | done result => some (.ok result)
  | fail error => some (.error error)
  | _ => none

/-- The program that has ended in some way. -/
def ended : Except ε α → LabelProgram ε α
  | .ok result => done result
  | .error error => fail error

/-- A program after its next access. Accessing a cell that does not exist makes it fail. -/
def advance (ofFault : Fault → ε) (program : LabelProgram ε α) (buffers : LabelBuffers) :
    LabelProgram ε α × LabelBuffers :=
  match program with
  | done result => (done result, buffers)
  | fail error => (fail error, buffers)
  | read buffer cell next =>
    match buffers.read buffer cell with
    | some label => (next label, buffers)
    | none => (fail (ofFault .outOfBounds), buffers)
  | write buffer cell label next =>
    if (buffers.read buffer cell).isSome then (next, buffers.write buffer cell label)
    else (fail (ofFault .outOfBounds), buffers)

/-- All accesses of a program are permitted, whatever it reads. -/
inductive Confined (permits : Access → Prop) : LabelProgram ε α → Prop
  | done (result : α) : Confined permits (done result)
  | fail (error : ε) : Confined permits (fail error)
  | read {buffer : Buffer} {cell : Nat} {next : UInt64 → LabelProgram ε α} :
    permits ⟨buffer, cell, false⟩ → (∀ label, Confined permits (next label)) →
      Confined permits (read buffer cell next)
  | write {buffer : Buffer} {cell : Nat} {label : UInt64} {next : LabelProgram ε α} :
    permits ⟨buffer, cell, true⟩ → Confined permits next →
      Confined permits (write buffer cell label next)

theorem outcome?_ended (outcome : Except ε α) : (ended outcome).outcome? = some outcome := by
  cases outcome <;> rfl

theorem eq_ended_of_outcome? {program : LabelProgram ε α} {outcome : Except ε α}
    (h : program.outcome? = some outcome) : program = ended outcome := by
  cases program with
  | done result => exact congrArg ended (Option.some_inj.mp h)
  | fail error => exact congrArg ended (Option.some_inj.mp h)
  | read buffer cell next => exact absurd h nofun
  | write buffer cell label next => exact absurd h nofun

theorem run_ended (ofFault : Fault → ε) (outcome : Except ε α) (buffers : LabelBuffers) :
    (ended outcome).run ofFault buffers = (buffers, outcome) := by
  cases outcome <;> rfl

theorem Confined.bind {permits : Access → Prop} {program : LabelProgram ε α}
    {f : α → LabelProgram ε β} (h : Confined permits program)
    (hf : ∀ result, Confined permits (f result)) : Confined permits (program >>= f) := by
  induction h with
  | done result => exact hf result
  | fail error => exact .fail error
  | read hread _ ih => exact .read hread ih
  | write hwrite _ ih => exact .write hwrite ih

theorem Confined.readCell {permits : Access → Prop} {buffer : Buffer} {cell : Nat}
    (h : permits ⟨buffer, cell, false⟩) :
    Confined permits (LabelProgram.readCell buffer cell : LabelProgram ε UInt64) :=
  .read h .done

theorem Confined.writeCell {permits : Access → Prop} {buffer : Buffer} {cell : Nat}
    (label : UInt64) (h : permits ⟨buffer, cell, true⟩) :
    Confined permits (LabelProgram.writeCell buffer cell label : LabelProgram ε Unit) :=
  .write h (.done ())

section Confined

variable {permits : Access → Prop} {program : LabelProgram ε α} (ofFault : Fault → ε)

theorem Confined.permits_access? (h : Confined permits program) {access : Access}
    (haccess : program.access? = some access) : permits access := by
  cases h with
  | done result => exact absurd haccess nofun
  | fail error => exact absurd haccess nofun
  | read hread _ => exact Option.some_inj.mp haccess ▸ hread
  | write hwrite _ => exact Option.some_inj.mp haccess ▸ hwrite

theorem Confined.advance (h : Confined permits program) (buffers : LabelBuffers) :
    Confined permits (program.advance ofFault buffers).1 := by
  cases h with
  | done result => exact .done result
  | fail error => exact .fail error
  | @read buffer cell next _ hnext =>
    rw [LabelProgram.advance]
    cases buffers.read buffer cell with
    | some label => exact hnext label
    | none => exact .fail _
  | @write buffer cell label next _ hnext =>
    rw [LabelProgram.advance]
    split_ifs
    · exact hnext
    · exact .fail _

/-- What is left of a program after an access leads to where the program leads. -/
theorem run_advance (program : LabelProgram ε α) (buffers : LabelBuffers) :
    (program.advance ofFault buffers).1.run ofFault (program.advance ofFault buffers).2 =
      program.run ofFault buffers := by
  cases program with
  | done result => rfl
  | fail error => rfl
  | read buffer cell next =>
    rw [advance, run]
    cases buffers.read buffer cell <;> rfl
  | write buffer cell label next =>
    rw [advance, run]
    split_ifs <;> rfl

/-- A cell that a program may not write stays as it is. -/
theorem Confined.read_advance (h : Confined permits program) (buffers : LabelBuffers)
    {buffer : Buffer} {cell : Nat} (hcell : ¬ permits ⟨buffer, cell, true⟩) :
    (program.advance ofFault buffers).2.read buffer cell = buffers.read buffer cell := by
  cases h with
  | done result => rfl
  | fail error => rfl
  | @read other i next _ _ =>
    rw [LabelProgram.advance]
    cases buffers.read other i <;> rfl
  | @write other i label next hwrite _ =>
    rw [LabelProgram.advance]
    split_ifs
    · rw [LabelBuffers.read_write, if_neg]
      rintro ⟨rfl, rfl⟩
      exact hcell hwrite
    · rfl

/-- Where a program leads depends on the cells that it may access, and on no others. -/
theorem Confined.run_congr (h : Confined permits program) {buffers others : LabelBuffers}
    (hagree : buffers.AgreeOn (Sees permits) others) :
    (program.run ofFault buffers).2 = (program.run ofFault others).2 ∧
      (program.run ofFault buffers).1.AgreeOn (Sees permits) (program.run ofFault others).1 := by
  induction h generalizing buffers others with
  | done result => exact ⟨rfl, hagree⟩
  | fail error => exact ⟨rfl, hagree⟩
  | @read buffer cell next hread _ ih =>
    have hcell := hagree buffer cell ⟨false, hread⟩
    rw [run, run, hcell]
    cases others.read buffer cell with
    | some label => exact ih label hagree
    | none => exact ⟨rfl, hagree⟩
  | @write buffer cell label next hwrite _ ih =>
    have hcell := hagree buffer cell ⟨true, hwrite⟩
    rw [run, run, hcell]
    split_ifs
    · refine ih fun other i hsees ↦ ?_
      rw [LabelBuffers.read_write, LabelBuffers.read_write, hcell, hagree other i hsees]
    · exact ⟨rfl, hagree⟩

end Confined

/-- A program ends after enough accesses in a row. -/
theorem exists_iterate_advance (ofFault : Fault → ε) (program : LabelProgram ε α)
    (buffers : LabelBuffers) :
    ∃ count, (fun state : LabelProgram ε α × LabelBuffers ↦
        state.1.advance ofFault state.2)^[count] (program, buffers) =
      (ended (program.run ofFault buffers).2, (program.run ofFault buffers).1) := by
  induction program generalizing buffers with
  | done result => exact ⟨0, rfl⟩
  | fail error => exact ⟨0, rfl⟩
  | read buffer cell next ih =>
    cases hcell : buffers.read buffer cell with
    | some label =>
      obtain ⟨count, hcount⟩ := ih label buffers
      refine ⟨count + 1, ?_⟩
      rw [Function.iterate_succ_apply, advance, run]
      simp only [hcell]
      exact hcount
    | none =>
      refine ⟨1, ?_⟩
      rw [Function.iterate_one, advance, run]
      simp only [hcell]
      rfl
  | write buffer cell label next ih =>
    by_cases hcell : (buffers.read buffer cell).isSome
    · obtain ⟨count, hcount⟩ := ih (buffers.write buffer cell label)
      refine ⟨count + 1, ?_⟩
      rw [Function.iterate_succ_apply, advance, run, if_pos hcell, if_pos hcell]
      exact hcount
    · refine ⟨1, ?_⟩
      rw [Function.iterate_one, advance, run, if_neg hcell, if_neg hcell]
      rfl

end LabelProgram

/-! ## Programs that run at the same time -/

/-- Programs that run at the same time, and the buffers they share. -/
structure Interleaving (ι ε α : Type) where
  programs : ι → LabelProgram ε α
  buffers : LabelBuffers

namespace Interleaving

variable {ι ε α : Type}

def IsOver (state : Interleaving ι ε α) : Prop :=
  ∀ i, (state.programs i).outcome?.isSome

/-- No program may write a cell that another one may access. -/
def Independent (permits : ι → Access → Prop) : Prop :=
  ∀ i j buffer cell, i ≠ j → permits i ⟨buffer, cell, true⟩ → ¬ Sees (permits j) buffer cell

/-- What the programs have left to do leads each of them to where it leads alone from the start,
and cells that no program may write are as they were. -/
structure Follows (ofFault : Fault → ε) (permits : ι → Access → Prop)
    (start state : Interleaving ι ε α) : Prop where
  confined : ∀ i, (state.programs i).Confined (permits i)
  result_eq : ∀ i, ((state.programs i).run ofFault state.buffers).2 =
    ((start.programs i).run ofFault start.buffers).2
  agree : ∀ i, ((state.programs i).run ofFault state.buffers).1.AgreeOn (Sees (permits i))
    ((start.programs i).run ofFault start.buffers).1
  read_eq : ∀ buffer cell, (∀ i, ¬ permits i ⟨buffer, cell, true⟩) →
    state.buffers.read buffer cell = start.buffers.read buffer cell

variable {ofFault : Fault → ε} {permits : ι → Access → Prop} {start state : Interleaving ι ε α}

theorem Follows.refl (h : ∀ i, (start.programs i).Confined (permits i)) :
    Follows ofFault permits start start where
  confined := h
  result_eq _ := rfl
  agree _ _ _ _ := rfl
  read_eq _ _ _ := rfl

/-- Every program that has ended has the result that it has alone. -/
theorem Follows.outcome?_eq (h : Follows ofFault permits start state) (hover : state.IsOver)
    (i : ι) :
    (state.programs i).outcome? = some ((start.programs i).run ofFault start.buffers).2 := by
  obtain ⟨outcome, houtcome⟩ := Option.isSome_iff_exists.mp (hover i)
  have hresult := h.result_eq i
  rw [LabelProgram.eq_ended_of_outcome? houtcome, LabelProgram.run_ended] at hresult
  rw [houtcome, ← hresult]

/-- All ways to run the programs to their ends lead to the same labels. -/
theorem Follows.buffers_eq {other : Interleaving ι ε α}
    (h : Follows ofFault permits start state) (hover : state.IsOver)
    (hother : Follows ofFault permits start other) (hotherOver : other.IsOver) :
    state.buffers = other.buffers := by
  -- a cell that some program may write is as this program leaves it
  have hwritten {now : Interleaving ι ε α} (hnow : Follows ofFault permits start now)
      (hend : now.IsOver) {i : ι} {buffer : Buffer} {cell : Nat}
      (hwrite : permits i ⟨buffer, cell, true⟩) : now.buffers.read buffer cell =
        ((start.programs i).run ofFault start.buffers).1.read buffer cell := by
    obtain ⟨outcome, houtcome⟩ := Option.isSome_iff_exists.mp (hend i)
    have hagree := hnow.agree i buffer cell ⟨true, hwrite⟩
    rwa [LabelProgram.eq_ended_of_outcome? houtcome, LabelProgram.run_ended] at hagree
  apply LabelBuffers.ext_read
  intro buffer cell
  by_cases hcell : ∃ i, permits i ⟨buffer, cell, true⟩
  · obtain ⟨i, hwrite⟩ := hcell
    rw [hwritten h hover hwrite, hwritten hother hotherOver hwrite]
  · have hnone := not_exists.mp hcell
    rw [h.read_eq buffer cell hnone, hother.read_eq buffer cell hnone]

/-! ## Schedules -/

variable [DecidableEq ι]

section Running

variable (ofFault)

/-- Lets a program make its next access. -/
def advance (state : Interleaving ι ε α) (i : ι) : Interleaving ι ε α :=
  let moved := (state.programs i).advance ofFault state.buffers
  ⟨Function.update state.programs i moved.1, moved.2⟩

/-- Lets programs make one access each, in the order of a schedule. -/
def run (state : Interleaving ι ε α) (schedule : List ι) : Interleaving ι ε α :=
  schedule.foldl (advance ofFault) state

/-- The accesses made under a schedule, each with the program that makes it. -/
def accesses (state : Interleaving ι ε α) : List ι → List (ι × Access)
  | [] => []
  | i :: schedule =>
    ((state.programs i).access?.map (i, ·)).toList ++ accesses (state.advance ofFault i) schedule

/-- Runs a program to its end without interruption. -/
def finish (state : Interleaving ι ε α) (i : ι) : Interleaving ι ε α :=
  let (buffers, outcome) := (state.programs i).run ofFault state.buffers
  ⟨Function.update state.programs i (.ended outcome), buffers⟩

/-- Runs programs one after another, each of them to its end. -/
def finishAll (state : Interleaving ι ε α) (order : List ι) : Interleaving ι ε α :=
  order.foldl (finish ofFault) state

end Running

theorem run_append (ofFault : Fault → ε) (state : Interleaving ι ε α) (first rest : List ι) :
    state.run ofFault (first ++ rest) = (state.run ofFault first).run ofFault rest :=
  List.foldl_append

theorem Follows.advance (hindependent : Independent permits)
    (h : Follows ofFault permits start state) (i : ι) :
    Follows ofFault permits start (state.advance ofFault i) := by
  -- the accesses of one program go unnoticed by every other one
  have hunseen (j : ι) (hne : j ≠ i) : (state.advance ofFault i).buffers.AgreeOn
      (Sees (permits j)) state.buffers := by
    intro buffer cell hsees
    exact (h.confined i).read_advance ofFault state.buffers
      fun hwrite ↦ hindependent i j buffer cell hne.symm hwrite hsees
  have hself : (state.advance ofFault i).programs i =
      ((state.programs i).advance ofFault state.buffers).1 := Function.update_self ..
  have hother (j : ι) (hne : j ≠ i) :
      (state.advance ofFault i).programs j = state.programs j := Function.update_of_ne hne ..
  have hrun : ((state.advance ofFault i).programs i).run ofFault
      (state.advance ofFault i).buffers = (state.programs i).run ofFault state.buffers := by
    rw [hself]
    exact (state.programs i).run_advance ofFault state.buffers
  refine ⟨fun j ↦ ?_, fun j ↦ ?_, fun j ↦ ?_, fun buffer cell hcell ↦ ?_⟩
  · by_cases hne : j = i
    · rw [hne, hself]
      exact (h.confined i).advance ofFault state.buffers
    · rw [hother j hne]
      exact h.confined j
  · by_cases hne : j = i
    · rw [hne, hrun]
      exact h.result_eq i
    · rw [hother j hne, ((h.confined j).run_congr ofFault (hunseen j hne)).1]
      exact h.result_eq j
  · by_cases hne : j = i
    · rw [hne, hrun]
      exact h.agree i
    · rw [hother j hne]
      intro buffer cell hsees
      exact (((h.confined j).run_congr ofFault (hunseen j hne)).2 buffer cell hsees).trans
        (h.agree j buffer cell hsees)
  · exact ((h.confined i).read_advance ofFault state.buffers (hcell i)).trans
      (h.read_eq buffer cell hcell)

theorem Follows.run (hindependent : Independent permits)
    (h : Follows ofFault permits start state) (schedule : List ι) :
    Follows ofFault permits start (state.run ofFault schedule) := by
  induction schedule generalizing state with
  | nil => exact h
  | cons i schedule ih => exact ih (h.advance hindependent i)

theorem Follows.permits_accesses (hindependent : Independent permits)
    (h : Follows ofFault permits start state) (schedule : List ι) {i : ι} {access : Access}
    (haccess : (i, access) ∈ state.accesses ofFault schedule) : permits i access := by
  induction schedule generalizing state with
  | nil => exact absurd haccess List.not_mem_nil
  | cons j schedule ih =>
    rw [accesses, List.mem_append, Option.mem_toList, Option.map_eq_some_iff] at haccess
    rcases haccess with ⟨other, hother, heq⟩ | hlater
    · obtain ⟨rfl, rfl⟩ := Prod.mk.inj heq
      exact (h.confined j).permits_access? hother
    · exact ih (h.advance hindependent j) hlater

/-! ## One program after another -/

/-- A schedule may run a program to its end before any other access. -/
theorem exists_run_eq_finish (ofFault : Fault → ε) (state : Interleaving ι ε α) (i : ι) :
    ∃ schedule, state.run ofFault schedule = state.finish ofFault i := by
  obtain ⟨count, hcount⟩ :=
    (state.programs i).exists_iterate_advance ofFault state.buffers
  have hrun (count : Nat) : state.run ofFault (.replicate count i) =
      let moved := (fun pair : LabelProgram ε α × LabelBuffers ↦
        pair.1.advance ofFault pair.2)^[count] (state.programs i, state.buffers)
      ⟨Function.update state.programs i moved.1, moved.2⟩ := by
    induction count with
    | zero => exact (congrArg (Interleaving.mk · _) (Function.update_eq_self i _)).symm
    | succ count ih =>
      rw [run] at ih
      rw [List.replicate_succ', run, List.foldl_append, ih, Function.iterate_succ_apply']
      simp only [List.foldl_cons, List.foldl_nil, advance, Function.update_self,
        Function.update_idem]
  refine ⟨.replicate count i, ?_⟩
  rw [hrun, hcount]
  rfl

theorem exists_run_eq_finishAll (ofFault : Fault → ε) (state : Interleaving ι ε α)
    (order : List ι) :
    ∃ schedule, state.run ofFault schedule = state.finishAll ofFault order := by
  induction order generalizing state with
  | nil => exact ⟨[], rfl⟩
  | cons i order ih =>
    obtain ⟨first, hfirst⟩ := exists_run_eq_finish ofFault state i
    obtain ⟨rest, hrest⟩ := ih (state.finish ofFault i)
    exact ⟨first ++ rest, by rw [run_append, hfirst, hrest]; rfl⟩

theorem finish_programs (ofFault : Fault → ε) (state : Interleaving ι ε α) (i j : ι) :
    (state.finish ofFault i).programs j =
      if j = i then .ended ((state.programs i).run ofFault state.buffers).2
      else state.programs j :=
  Function.update_apply ..

/-- A program that has been run to its end stays there. -/
theorem outcome?_finishAll (ofFault : Fault → ε) (state : Interleaving ι ε α) {order : List ι}
    {i : ι} (h : i ∈ order ∨ (state.programs i).outcome?.isSome) :
    ((state.finishAll ofFault order).programs i).outcome?.isSome := by
  induction order generalizing state with
  | nil => exact h.resolve_left List.not_mem_nil
  | cons j order ih =>
    refine ih (state.finish ofFault j) ?_
    rw [finish_programs]
    split_ifs with heq
    · rw [LabelProgram.outcome?_ended]
      exact .inr rfl
    · rw [List.mem_cons, or_iff_right heq] at h
      exact h

theorem isOver_finishAll (ofFault : Fault → ε) (state : Interleaving ι ε α) {order : List ι}
    (h : ∀ i, i ∈ order) : (state.finishAll ofFault order).IsOver :=
  fun i ↦ outcome?_finishAll ofFault state (.inl (h i))

theorem Follows.finish (hindependent : Independent permits)
    (h : Follows ofFault permits start state) (i : ι) :
    Follows ofFault permits start (state.finish ofFault i) := by
  obtain ⟨schedule, hschedule⟩ := exists_run_eq_finish ofFault state i
  exact hschedule ▸ h.run hindependent schedule

end Interleaving

end PackedGraph
