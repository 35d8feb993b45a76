import Mathlib
import PackedGraph.Community.LabelPropagation
import PackedGraph.Proofs.Community.Interleaving

/-!
# Label propagation in any order

In an iteration, a step writes the new labels of its own range, and reads these labels and the old
ones of all nodes. The ranges of a split have no node in common, so the accesses of the steps can be
interleaved in any order without a change to the labels or to what the steps report.
-/

namespace PackedGraph

theorem Buffer.after_ne_before (iteration : Nat) :
    Buffer.after iteration ≠ .before iteration := by
  rw [after, before, before]
  rcases Nat.mod_two_eq_zero_or_one iteration with h | h
  · have hnext : ¬ (iteration + 1) % 2 = 0 := by omega
    rw [if_pos h, if_neg hnext]
    exact nofun
  · have hthis : ¬ iteration % 2 = 0 := by omega
    have hnext : (iteration + 1) % 2 = 0 := by omega
    rw [if_neg hthis, if_pos hnext]
    exact nofun

theorem NodeRange.mem_nodes_iff (range : NodeRange) (node : Nat) :
    node ∈ range.nodes ↔ range.contains node = true := by
  rw [nodes, List.mem_range'_1, contains, Bool.and_eq_true, decide_eq_true_iff,
    decide_eq_true_iff, size]
  omega

namespace PropagationStep

/-- The accesses of the step of a range in an iteration: it reads the old labels, and it reads and
writes the new labels of its own nodes. -/
def Permits (iteration : Nat) (range : NodeRange) (access : Access) : Prop :=
  access.buffer = .before iteration ∧ access.isWrite = false ∨
    access.buffer = .after iteration ∧ range.contains access.cell

section Confined

variable {iteration : Nat} {step : PropagationStep}

theorem confined_copyLabels {range : NodeRange} {nodes : List Nat}
    (h : ∀ node ∈ nodes, range.contains node) :
    (copyLabels iteration nodes).Confined (Permits iteration range) := by
  induction nodes with
  | nil => exact .done ()
  | cons node nodes ih =>
    have hnode := h node List.mem_cons_self
    refine .bind (.readCell (.inl ⟨rfl, rfl⟩)) fun label ↦ ?_
    refine .bind (.writeCell label (.inr ⟨rfl, hnode⟩)) fun _ ↦ ?_
    exact ih fun other hother ↦ h other (List.mem_cons_of_mem _ hother)

theorem confined_countVotes (tally : VoteTally) (pairs : List (Nat × ValueBits)) :
    (step.countVotes iteration tally pairs).Confined (Permits iteration step.range) := by
  induction pairs generalizing tally with
  | nil => exact .done tally
  | cons pair pairs ih =>
    obtain ⟨target, value⟩ := pair
    refine .bind (.readCell ?_) fun label ↦ ?_
    · by_cases htarget : step.range.contains target
      · rw [if_pos htarget]
        exact .inr ⟨rfl, htarget⟩
      · rw [if_neg htarget]
        exact .inl ⟨rfl, rfl⟩
    · cases step.nodeWeight target with
      | error fault => exact .fail _
      | ok weight => exact ih _

theorem confined_adoptLabels {nodes : List Nat} (h : ∀ node ∈ nodes, step.range.contains node)
    (view : View) (changed : Bool) :
    (step.adoptLabels iteration view changed nodes).Confined (Permits iteration step.range) := by
  induction nodes generalizing view changed with
  | nil => exact .done _
  | cons node nodes ih =>
    have hnode := h node List.mem_cons_self
    have hnodes : ∀ other ∈ nodes, step.range.contains other :=
      fun other hother ↦ h other (List.mem_cons_of_mem _ hother)
    refine .bind (confined_countVotes [] _) fun tally ↦ ?_
    cases (view.relationshipsWithValues node .one none).outcome with
    | error error => exact .fail _
    | ok _ =>
      refine .bind (.readCell (.inr ⟨rfl, hnode⟩)) fun label ↦ ?_
      by_cases hwinner : tally.winner label = label
      · simp only [if_pos hwinner]
        exact ih hnodes _ _
      · simp only [if_neg hwinner]
        exact .bind (.writeCell _ (.inr ⟨rfl, hnode⟩)) fun _ ↦ ih hnodes _ _

/-- A step makes no other accesses. -/
theorem confined_program (step : PropagationStep) (iteration : Nat) :
    (step.program iteration).Confined (Permits iteration step.range) := by
  have hnodes : ∀ node ∈ step.range.nodes, step.range.contains node :=
    fun node hnode ↦ (step.range.mem_nodes_iff node).mp hnode
  exact .bind (confined_copyLabels hnodes) fun _ ↦ confined_adoptLabels hnodes _ _

end Confined

/-- The steps of an iteration before their first accesses. -/
def interleaving (steps : List PropagationStep) (iteration : Nat) (buffers : LabelBuffers) :
    Interleaving (Fin steps.length) StepFailure (View × Bool) :=
  ⟨fun i ↦ steps[i].program iteration, buffers⟩

/-- Lets steps compute one after another, whether one of them fails or not. -/
def computeAll (iteration : Nat) :
    List PropagationStep → PropagationWorld → PropagationWorld × List (Except StepFailure Bool)
  | [], world => (world, [])
  | step :: steps, world =>
    let (_, world, changed) := compute iteration step world
    let (world, others) := computeAll iteration steps world
    (world, changed :: others)

theorem compute_eq (iteration : Nat) (step : PropagationStep) (world : PropagationWorld) :
    ∃ moved, compute iteration step world =
      (moved, { world with buffers := ((step.program iteration).run .broken world.buffers).1 },
        ((step.program iteration).run .broken world.buffers).2.map Prod.snd) := by
  rw [compute]
  generalize (step.program iteration).run .broken world.buffers = ended
  obtain ⟨buffers, outcome⟩ := ended
  cases outcome with
  | ok result => exact ⟨{ step with view := result.1 }, rfl⟩
  | error error => exact ⟨step, rfl⟩

variable {steps : List PropagationStep} {count : Nat}

/-- No two steps of a split write the same label, and none reads what another one writes. -/
theorem independent_of_split (hsplit : steps.flatMap (·.range.nodes) = List.range count)
    (iteration : Nat) :
    Interleaving.Independent fun i : Fin steps.length ↦ Permits iteration steps[i].range := by
  have hnodup : (steps.flatMap (·.range.nodes)).Nodup := hsplit ▸ List.nodup_range
  have hdisjoint := List.pairwise_iff_getElem.mp (List.nodup_flatMap.mp hnodup).2
  intro i j buffer cell hne hwrite hsees
  have hbuffer : buffer = .after iteration ∧ steps[i].range.contains cell :=
    hwrite.resolve_left fun hread ↦ absurd hread.2 nofun
  have hcell : steps[j].range.contains cell := by
    obtain ⟨isWrite, hread | hown⟩ := hsees
    · exact absurd (hbuffer.1.symm.trans hread.1) (Buffer.after_ne_before iteration)
    · exact hown.2
  have hi := (steps[i].range.mem_nodes_iff cell).mpr hbuffer.2
  have hj := (steps[j].range.mem_nodes_iff cell).mpr hcell
  rcases Nat.lt_or_gt_of_ne (Fin.val_ne_of_ne hne) with hlt | hlt
  · exact hdisjoint i j i.isLt j.isLt hlt hi hj
  · exact hdisjoint j i j.isLt i.isLt hlt hj hi

/-- Steps that compute one after another report what each of them reports alone. -/
theorem computeAll_eq {iteration : Nat} {world : PropagationWorld}
    {permits : Fin steps.length → Access → Prop} (hindependent : Interleaving.Independent permits)
    {state : Interleaving (Fin steps.length) StepFailure (View × Bool)}
    (hstate :
      Interleaving.Follows .broken permits (interleaving steps iteration world.buffers) state)
    {order : List (Fin steps.length)} (hnodup : order.Nodup)
    (hfresh : ∀ i ∈ order, state.programs i = steps[i].program iteration) :
    computeAll iteration (order.map (steps[·])) { world with buffers := state.buffers } =
      ({ world with buffers := (state.finishAll .broken order).buffers },
        order.map fun i ↦
          ((steps[i].program iteration).run .broken world.buffers).2.map Prod.snd) := by
  induction order generalizing state with
  | nil => rfl
  | cons i order ih =>
    obtain ⟨hnotMem, hnodup⟩ := List.nodup_cons.mp hnodup
    have hprogram := hfresh i List.mem_cons_self
    have hresult := hstate.result_eq i
    rw [hprogram] at hresult
    obtain ⟨moved, hcompute⟩ :=
      compute_eq iteration steps[i] { world with buffers := state.buffers }
    have hfinish : (state.finish .broken i).buffers =
        ((steps[i].program iteration).run .broken state.buffers).1 := by
      rw [Interleaving.finish, hprogram]
    have hlater := ih (hstate.finish hindependent i) hnodup fun j hj ↦ by
      have hne : j ≠ i := fun heq ↦ hnotMem (heq ▸ hj)
      rw [Interleaving.finish_programs, if_neg hne]
      exact hfresh j (List.mem_cons_of_mem _ hj)
    rw [hfinish] at hlater
    rw [List.map_cons, computeAll, hcompute]
    simp only [hlater, hresult]
    rfl

/-- The sweep of an iteration in which no step fails is the computation of all steps in turn. -/
theorem sweep_eq {iteration : Nat} {world after : PropagationWorld} {flags : List Bool}
    (h : computeAll iteration steps world = (after, flags.map .ok)) :
    ∃ moved, computation.sweep iteration steps world = (moved, after, .ok (flags.any id)) := by
  induction steps generalizing world flags with
  | nil =>
    obtain ⟨rfl, hflags⟩ := Prod.mk.inj h
    obtain rfl := List.map_eq_nil_iff.mp hflags.symm
    exact ⟨[], rfl⟩
  | cons step steps ih =>
    rw [computeAll] at h
    have hcompute : computation.compute iteration step world = compute iteration step world := rfl
    rw [Computation.sweep, hcompute]
    generalize compute iteration step world = computed at h
    obtain ⟨moved, between, changed⟩ := computed
    obtain ⟨rfl, hflags⟩ := Prod.mk.inj h
    cases flags with
    | nil => exact absurd hflags (List.cons_ne_nil _ _)
    | cons flag flags =>
      obtain ⟨rfl, hrest⟩ := List.cons.inj hflags
      obtain ⟨others, hsweep⟩ := ih (Prod.ext rfl hrest)
      exact ⟨moved :: others, by simp only [hsweep, Except.map, List.any_cons, id_eq]⟩

end PropagationStep

open PropagationStep

/-- However the accesses of the steps of a split are interleaved, the iteration leaves the old
labels as they are, ends with the new labels and the reports of the steps computing one after
another in any order, and no step accesses what another one writes. -/
theorem propagation_is_independent_of_schedule {steps : List PropagationStep} {count : Nat}
    (hsplit : steps.flatMap (·.range.nodes) = List.range count) (iteration : Nat)
    (world : PropagationWorld) :
    let start := interleaving steps iteration world.buffers
    ∃ (after : LabelBuffers) (changes : Fin steps.length → Except StepFailure Bool),
      (∀ order : List (Fin steps.length), order.Perm (List.finRange steps.length) →
        computeAll iteration (order.map (steps[·])) world =
          ({ world with buffers := after }, order.map changes)) ∧
      (∀ flags : List Bool, (List.finRange steps.length).map changes = flags.map .ok →
        ∃ moved, computation.sweep iteration steps world =
          (moved, { world with buffers := after }, .ok (flags.any id))) ∧
      ∀ schedule : List (Fin steps.length),
        let now := start.run .broken schedule
        now.buffers.labels (.before iteration) = world.buffers.labels (.before iteration) ∧
        (∃ rest, (start.run .broken (schedule ++ rest)).IsOver) ∧
        (now.IsOver → now.buffers = after ∧ ∀ i, ∃ outcome,
          (now.programs i).outcome? = some outcome ∧ outcome.map Prod.snd = changes i) ∧
        ∀ i j a b, i ≠ j → (i, a) ∈ start.accesses .broken schedule →
          (j, b) ∈ start.accesses .broken schedule → a.isWrite →
            (a.buffer, a.cell) ≠ (b.buffer, b.cell) := by
  intro start
  have hindependent := independent_of_split hsplit iteration
  have hstart : Interleaving.Follows .broken (fun i ↦ Permits iteration steps[i].range) start
      start := .refl fun i ↦ steps[i].confined_program iteration
  have hall : ∀ i, i ∈ List.finRange steps.length := List.mem_finRange
  obtain ⟨first, hfirst⟩ := start.exists_run_eq_finishAll .broken (List.finRange steps.length)
  have hend := hfirst ▸ hstart.run hindependent first
  have hendOver := start.isOver_finishAll .broken hall
  have heach : ∀ order : List (Fin steps.length), order.Perm (List.finRange steps.length) →
      computeAll iteration (order.map (steps[·])) world =
        ({ world with buffers := (start.finishAll .broken (List.finRange steps.length)).buffers },
          order.map fun i ↦
            ((steps[i].program iteration).run .broken world.buffers).2.map Prod.snd) := by
    intro order horder
    obtain ⟨schedule, hschedule⟩ := start.exists_run_eq_finishAll .broken order
    have hover := start.isOver_finishAll .broken fun i ↦ horder.mem_iff.mpr (hall i)
    have hsame := (hschedule ▸ hstart.run hindependent schedule).buffers_eq hover hend hendOver
    rw [← hsame]
    exact computeAll_eq hindependent hstart (horder.nodup_iff.mpr (List.nodup_finRange _))
      fun _ _ ↦ rfl
  refine ⟨_, _, heach, fun flags hflags ↦ ?_, fun schedule ↦ ?_⟩
  · have hturn := heach _ (List.Perm.refl _)
    have hsteps : (List.finRange steps.length).map (steps[·]) = steps := List.map_get_finRange steps
    rw [hflags, hsteps] at hturn
    exact sweep_eq hturn
  · have hnow := hstart.run hindependent schedule
    refine ⟨?_, ?_, fun hover ↦ ⟨?_, fun i ↦ ?_⟩, ?_⟩
    · apply LabelBuffers.labels_congr
      intro cell
      apply hnow.read_eq
      rintro i (⟨_, hread⟩ | ⟨hafter, _⟩)
      · exact absurd hread nofun
      · exact Buffer.after_ne_before iteration hafter.symm
    · obtain ⟨rest, hrest⟩ := (start.run .broken schedule).exists_run_eq_finishAll .broken
        (List.finRange steps.length)
      refine ⟨rest, ?_⟩
      rw [Interleaving.run_append, hrest]
      exact Interleaving.isOver_finishAll StepFailure.broken _ hall
    · exact hnow.buffers_eq hover hend hendOver
    · exact ⟨_, hnow.outcome?_eq hover i, rfl⟩
    · intro i j a b hne ha hb hwrite heq
      have hpermitsA := hstart.permits_accesses hindependent schedule ha
      have hpermitsB := hstart.permits_accesses hindependent schedule hb
      obtain ⟨hbuffer, hcell⟩ := Prod.mk.inj heq
      refine hindependent i j a.buffer a.cell hne ?_ ⟨b.isWrite, ?_⟩
      · rw [← hwrite]
        exact hpermitsA
      · rw [hbuffer, hcell]
        exact hpermitsB

/-- Three nodes in a row, which two steps share. -/
def rowSteps : List PropagationStep :=
  let view : View := .packed {
    ids := ⟨∅, #[5, 7, 9], ∅⟩
    columns := ∅
    topology := some ⟨{
      block := ⟨⟨3, by decide, by decide⟩, #[#[0, 1, 0, 2, 1]]⟩
      index := ⟨#[⟨1, 1⟩, ⟨2, 2⟩, ⟨4, 1⟩]⟩
      elementCount := 4
      orientation := .undirected
      charge := none }, .exhausted⟩
    values := none
    relationshipCount := 4
    isUndirected := true
    hasValues := false
    canRelease := true
    blockTable := 0 }
  [⟨view, ⟨0, 2⟩, none⟩, ⟨view, ⟨2, 3⟩, none⟩]

theorem propagation_is_independent_of_schedule_in_a_row :
    rowSteps.flatMap (·.range.nodes) = List.range 3 ∧
      ∃ after, ∀ schedule,
        let now := (interleaving rowSteps 0 ⟨#[4, 2, 9], #[4, 2, 9]⟩).run .broken schedule
        now.buffers.labels .first = #[4, 2, 9] ∧ (now.IsOver → now.buffers = after) := by
  have hsplit : rowSteps.flatMap (·.range.nodes) = List.range 3 := by decide
  obtain ⟨after, _, _, _, hschedules⟩ := propagation_is_independent_of_schedule hsplit 0
    ⟨⟨#[4, 2, 9], #[4, 2, 9]⟩, false⟩
  refine ⟨hsplit, after, fun schedule ↦ ?_⟩
  obtain ⟨hbefore, _, hends, _⟩ := hschedules schedule
  exact ⟨hbefore, fun hover ↦ (hends hover).1⟩

end PackedGraph
