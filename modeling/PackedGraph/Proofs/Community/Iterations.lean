import Mathlib
import PackedGraph.Proofs.Community.Sweep
import PackedGraph.Proofs.Iteration.Course

/-!
# Label propagation iterates a sweep

The two label buffers swap roles after each iteration: the buffer that is written holds the labels
after one more sweep, and is read in the next iteration. So a run ends with the labels after as many
sweeps as there were iterations, each of which changes a label, except the last one of a run that
converges.
-/

namespace PackedGraph

/-! ## Running the program of a step -/

namespace Buffer

theorem after_succ (iteration : Nat) : after (iteration + 1) = before iteration := by
  have hparity : (iteration + 1 + 1) % 2 = iteration % 2 := by omega
  rw [after, before, before, hparity]

end Buffer

namespace LabelBuffers

theorem labels_write_self (buffers : LabelBuffers) (buffer : Buffer) (cell : Nat) (label : UInt64) :
    (buffers.write buffer cell label).labels buffer =
      (buffers.labels buffer).setIfInBounds cell label := by
  cases buffer <;> rfl

theorem labels_write_of_ne (buffers : LabelBuffers) {buffer other : Buffer} (hne : other ≠ buffer)
    (cell : Nat) (label : UInt64) :
    (buffers.write buffer cell label).labels other = buffers.labels other := by
  cases buffer <;> cases other
  · exact absurd rfl hne
  · rfl
  · rfl
  · exact absurd rfl hne

theorem getD_labels {buffers : LabelBuffers} {buffer : Buffer} {cell : Nat} {label : UInt64}
    (h : buffers.read buffer cell = some label) : (buffers.labels buffer).getD cell 0 = label := by
  rw [read] at h
  rw [Array.getD_eq_getD_getElem?, h, Option.getD_some]

end LabelBuffers

namespace LabelProgram

variable {ε α β : Type} {ofFault : Fault → ε} {buffers after : LabelBuffers}

/-- Both parts of a program that has succeeded have succeeded. -/
theorem exists_of_run_bind {program : LabelProgram ε α} {next : α → LabelProgram ε β} {b : β}
    (h : (program >>= next).run ofFault buffers = (after, .ok b)) :
    ∃ between a, program.run ofFault buffers = (between, .ok a) ∧
      (next a).run ofFault between = (after, .ok b) := by
  induction program generalizing buffers with
  | done result => exact ⟨buffers, result, rfl, h⟩
  | fail error => exact absurd (congrArg Prod.snd h) nofun
  | read buffer cell rest ih =>
    have hbind : (read buffer cell rest >>= next) =
        read buffer cell fun label ↦ rest label >>= next := rfl
    rw [hbind, run] at h
    rw [run]
    cases hread : buffers.read buffer cell with
    | none =>
      rw [hread] at h
      cases congrArg Prod.snd h
    | some label =>
      rw [hread] at h
      exact ih label h
  | write buffer cell label rest ih =>
    have hbind : (write buffer cell label rest >>= next) =
        write buffer cell label (rest >>= next) := rfl
    rw [hbind, run] at h
    rw [run]
    split_ifs at h ⊢ with hread
    · exact ih h
    · cases congrArg Prod.snd h

theorem exists_of_run_readCell {buffer : Buffer} {cell : Nat} {next : UInt64 → LabelProgram ε β}
    {b : β} (h : (readCell buffer cell >>= next).run ofFault buffers = (after, .ok b)) :
    ∃ label, buffers.read buffer cell = some label ∧
      (next label).run ofFault buffers = (after, .ok b) := by
  have hbind : (readCell buffer cell >>= next) = read buffer cell next := rfl
  rw [hbind, run] at h
  cases hread : buffers.read buffer cell with
  | none =>
    rw [hread] at h
    cases congrArg Prod.snd h
  | some label =>
    rw [hread] at h
    exact ⟨label, rfl, h⟩

theorem run_of_run_writeCell {buffer : Buffer} {cell : Nat} {label : UInt64}
    {next : Unit → LabelProgram ε β} {b : β}
    (h : (writeCell buffer cell label >>= next).run ofFault buffers = (after, .ok b)) :
    (next ()).run ofFault (buffers.write buffer cell label) = (after, .ok b) := by
  have hbind : (writeCell buffer cell label >>= next) = write buffer cell label (next ()) := rfl
  rw [hbind, run] at h
  split_ifs at h with hread
  · exact h
  · cases congrArg Prod.snd h

end LabelProgram

/-! ## Votes -/

/-- The weight of the votes for the label of a node, which is one unless the node has another. -/
def voteWeight (nodeWeights : Option Column) (node : Nat) : Float :=
  match nodeWeights with
  | none => 1.0
  | some column => (column.doubleValue node).toOption.join.getD 1.0

/-- The votes on the label of a node: each target of the node, and the value of the relationship
times the weight of the target. -/
def View.votes (view : View) (nodeWeights : Option Column) (node : Nat) : List (Nat × Float) :=
  (view.valuedTargets node .one).map fun pair ↦
    (pair.1, Float.ofBits pair.2 * voteWeight nodeWeights pair.1)

theorem View.votes_congr {view other : View} (h : view.fresh = other.fresh)
    (nodeWeights : Option Column) : view.votes nodeWeights = other.votes nodeWeights := by
  funext node
  unfold votes valuedTargets
  rw [valueReading_congr h]

namespace PropagationStep

variable {k : Nat} {step : PropagationStep} {buffers after : LabelBuffers}

theorem nodeWeight_eq {node : Nat} {weight : Float} (h : step.nodeWeight node = .ok weight) :
    weight = voteWeight step.nodeWeights node := by
  unfold nodeWeight at h
  unfold voteWeight
  cases hweights : step.nodeWeights with
  | none =>
    rw [hweights] at h
    exact (Except.ok.inj h).symm
  | some column =>
    simp only [hweights] at h
    cases hvalue : column.doubleValue node with
    | error fault =>
      rw [hvalue] at h
      exact nomatch h
    | ok value =>
      rw [hvalue] at h
      simp only [hvalue]
      rw [← Except.ok.inj h]
      rfl

theorem run_copyLabels {nodes : List Nat}
    (h : (copyLabels k nodes).run .broken buffers = (after, .ok ())) :
    after.labels (.before k) = buffers.labels (.before k) ∧
      after.labels (.after k) =
        nodes.foldl (copyLabel (buffers.labels (.before k))) (buffers.labels (.after k)) := by
  induction nodes generalizing buffers with
  | nil =>
    obtain ⟨rfl, _⟩ := Prod.mk.inj h
    exact ⟨rfl, rfl⟩
  | cons node nodes ih =>
    obtain ⟨label, hread, hwrite⟩ := LabelProgram.exists_of_run_readCell h
    have hnext := ih (LabelProgram.run_of_run_writeCell hwrite)
    rw [LabelBuffers.labels_write_self,
      LabelBuffers.labels_write_of_ne _ (Buffer.after_ne_before k).symm] at hnext
    rw [List.foldl_cons, copyLabel, LabelBuffers.getD_labels hread]
    exact hnext

theorem run_countVotes {pairs : List (Nat × ValueBits)} {tally total : VoteTally}
    (h : (step.countVotes k tally pairs).run .broken buffers = (after, .ok total)) :
    after = buffers ∧
      total = (pairs.map fun pair ↦
          (pair.1, Float.ofBits pair.2 * voteWeight step.nodeWeights pair.1)).foldl
        (fun tally vote ↦ tally.vote (step.range.labelSeen (buffers.labels (.before k))
          (buffers.labels (.after k)) vote.1) vote.2) tally := by
  induction pairs generalizing tally with
  | nil =>
    obtain ⟨rfl, htotal⟩ := Prod.mk.inj h
    exact ⟨rfl, (Except.ok.inj htotal).symm⟩
  | cons pair pairs ih =>
    obtain ⟨label, hread, hrest⟩ := LabelProgram.exists_of_run_readCell h
    have hseen : step.range.labelSeen (buffers.labels (.before k)) (buffers.labels (.after k))
        pair.1 = label := by
      unfold NodeRange.labelSeen
      split_ifs at hread ⊢ with htarget
      · exact LabelBuffers.getD_labels hread
      · exact LabelBuffers.getD_labels hread
    cases hweight : step.nodeWeight pair.1 with
    | error fault =>
      simp only [hweight] at hrest
      exact absurd (congrArg Prod.snd hrest) nofun
    | ok weight =>
      simp only [hweight] at hrest
      rw [List.map_cons, List.foldl_cons, hseen, ← nodeWeight_eq hweight]
      exact ih hrest

/-- A node adopts the winner of its votes, and reports a change if that is not its label. -/
theorem exists_of_run_adoptLabels_cons {view : View} {node : Nat} {nodes : List Nat}
    {changed : Bool} {result : View × Bool}
    (h : (step.adoptLabels k view changed (node :: nodes)).run .broken buffers =
      (after, .ok result)) :
    ∃ reader flag between,
      (step.adoptLabels k reader flag nodes).run .broken between = (after, .ok result) ∧
      reader.fresh = view.fresh ∧
      between.labels (.before k) = buffers.labels (.before k) ∧
      between.labels (.after k) = adopt (view.votes step.nodeWeights) step.range
        (buffers.labels (.before k)) (buffers.labels (.after k)) node ∧
      (flag = true ↔
        changed = true ∨ between.labels (.after k) ≠ buffers.labels (.after k)) := by
  obtain ⟨hpairs, hfresh⟩ := view.relationshipsWithValues_eq node .one
  obtain ⟨counted, tally, hcount, hrest⟩ := LabelProgram.exists_of_run_bind h
  obtain ⟨hcounted, htally⟩ := run_countVotes hcount
  obtain rfl : buffers = counted := hcounted.symm
  rw [hpairs] at htally
  cases houtcome : (view.relationshipsWithValues node .one none).outcome with
  | error error =>
    simp only [houtcome] at hrest
    exact absurd (congrArg Prod.snd hrest) nofun
  | ok _ =>
    simp only [houtcome] at hrest
    obtain ⟨label, hread, hwrite⟩ := LabelProgram.exists_of_run_readCell hrest
    have hlabel : (buffers.labels (.after k))[node]? = some label := hread
    have hadopted : adopt (view.votes step.nodeWeights) step.range (buffers.labels (.before k))
        (buffers.labels (.after k)) node =
        (buffers.labels (.after k)).setIfInBounds node (tally.winner label) := by
      simp only [adopt, NodeRange.tally, LabelBuffers.getD_labels hread]
      rw [htally]
      rfl
    by_cases hwinner : tally.winner label = label
    · simp only [if_pos hwinner] at hwrite
      refine ⟨_, changed, buffers, hwrite, hfresh, rfl, ?_, by simp⟩
      rw [hadopted, hwinner]
      exact (setIfInBounds_eq_self hlabel).symm
    · simp only [if_neg hwinner] at hwrite
      have hwritten := buffers.labels_write_self (.after k) node (tally.winner label)
      refine ⟨_, true, _, LabelProgram.run_of_run_writeCell hwrite, hfresh,
        LabelBuffers.labels_write_of_ne _ (Buffer.after_ne_before k).symm _ _,
        hwritten.trans hadopted.symm, iff_of_true rfl (.inr ?_)⟩
      intro heq
      have hnode : some (tally.winner label) = some label := by
        rw [← hlabel, ← heq, hwritten, getElem?_setIfInBounds_eq, if_pos rfl, hlabel,
          Option.map_some]
      exact hwinner (Option.some_inj.mp hnode)

/-- Nodes adopt the winners of their votes one after another. Something is reported to change if
the labels are not what they were. -/
theorem run_adoptLabels {view : View} {nodes : List Nat} (hnodup : nodes.Nodup) {changed : Bool}
    {result : View × Bool}
    (h : (step.adoptLabels k view changed nodes).run .broken buffers = (after, .ok result)) :
    after.labels (.before k) = buffers.labels (.before k) ∧
      after.labels (.after k) = nodes.foldl
        (adopt (view.votes step.nodeWeights) step.range (buffers.labels (.before k)))
        (buffers.labels (.after k)) ∧
      result.1.fresh = view.fresh ∧
      (result.2 = true ↔
        changed = true ∨ after.labels (.after k) ≠ buffers.labels (.after k)) := by
  induction nodes generalizing view buffers changed with
  | nil =>
    obtain ⟨rfl, hresult⟩ := Prod.mk.inj h
    obtain rfl := Except.ok.inj hresult
    exact ⟨rfl, rfl, rfl, by simp⟩
  | cons node nodes ih =>
    obtain ⟨hnode, hnodup⟩ := List.nodup_cons.mp hnodup
    obtain ⟨reader, flag, between, hrest, hfresh, hold, hadopted, hflag⟩ :=
      exists_of_run_adoptLabels_cons h
    obtain ⟨hbefore, hafter, hreader, hchanged⟩ := ih hnodup hrest
    rw [hold, View.votes_congr hfresh] at hafter
    refine ⟨hbefore.trans hold, ?_, hreader.trans hfresh, ?_⟩
    · rw [hafter, hadopted, List.foldl_cons]
    · have hsame : after.labels (.after k) = buffers.labels (.after k) ↔
          between.labels (.after k) = buffers.labels (.after k) ∧
            after.labels (.after k) = between.labels (.after k) := by
        rw [hafter, hadopted]
        exact foldl_adopt_eq_self_iff hnode
      rw [hchanged, hflag, Ne, Ne, Ne, hsame, not_and_or, or_assoc]

/-- A step that succeeds sweeps its range, and reports a change if a label of the range is not what
it was before the iteration. -/
theorem run_program {result : View × Bool}
    (h : (step.program k).run .broken buffers = (after, .ok result))
    (hsize : (buffers.labels (.after k)).size = (buffers.labels (.before k)).size) :
    after.labels (.before k) = buffers.labels (.before k) ∧
      after.labels (.after k) = stepLabels (step.view.votes step.nodeWeights)
        (buffers.labels (.before k)) (buffers.labels (.after k)) step.range ∧
      result.1.fresh = step.view.fresh ∧
      (result.2 = true ↔
        ¬ step.range.Agree (after.labels (.after k)) (buffers.labels (.before k))) := by
  obtain ⟨between, _, hcopy, hadopt⟩ := LabelProgram.exists_of_run_bind h
  obtain ⟨hold, hcopied⟩ := run_copyLabels hcopy
  obtain ⟨hbefore, hafter, hreader, hchanged⟩ := run_adoptLabels List.nodup_range' hadopt
  rw [hold] at hbefore hafter
  have hagree : step.range.Agree (between.labels (.after k)) (buffers.labels (.before k)) := by
    rw [hcopied]
    exact refreshRange_agree hsize
  have hswept : after.labels (.after k) = sweepRange (step.view.votes step.nodeWeights)
      (buffers.labels (.before k)) (between.labels (.after k)) step.range := hafter
  refine ⟨hbefore, ?_, hreader, ?_⟩
  · rw [hswept, hcopied]
    rfl
  · rw [hchanged, hswept, or_iff_right Bool.false_ne_true]
    exact not_congr (sweepRange_eq_self_iff hagree)

/-- A step reads a view on some data, with some weights. -/
structure Reads (step : PropagationStep) (view : View) (nodeWeights : Option Column) : Prop where
  fresh_eq : step.view.fresh = view.fresh
  nodeWeights_eq : step.nodeWeights = nodeWeights

variable {view : View} {nodeWeights : Option Column} {world between later : PropagationWorld}

theorem compute_eq_ok (hreads : step.Reads view nodeWeights) {moved : PropagationStep}
    {changed : Bool} (h : computation.compute k step world = (moved, between, .ok changed))
    (hsize : (world.buffers.labels (.after k)).size = (world.buffers.labels (.before k)).size) :
    moved.range = step.range ∧ moved.Reads view nodeWeights ∧
      between.buffers.labels (.before k) = world.buffers.labels (.before k) ∧
      between.buffers.labels (.after k) = stepLabels (view.votes nodeWeights)
        (world.buffers.labels (.before k)) (world.buffers.labels (.after k)) step.range ∧
      (changed = true ↔ ¬ step.range.Agree (between.buffers.labels (.after k))
        (world.buffers.labels (.before k))) := by
  have hcompute : computation.compute k step world = compute k step world := rfl
  rw [hcompute, compute] at h
  cases hrun : (step.program k).run .broken world.buffers with
  | mk buffers outcome =>
    rw [hrun] at h
    cases outcome with
    | error error => cases congrArg (·.2.2) h
    | ok result =>
      obtain ⟨rfl, hworld⟩ := Prod.mk.inj h
      obtain ⟨rfl, hflag⟩ := Prod.mk.inj hworld
      obtain rfl := Except.ok.inj hflag
      obtain ⟨hbefore, hafter, hreader, hchanged⟩ := run_program hrun hsize
      rw [hreads.nodeWeights_eq, View.votes_congr hreads.fresh_eq] at hafter
      exact ⟨rfl, ⟨hreader.trans hreads.fresh_eq, hreads.nodeWeights_eq⟩, hbefore, hafter,
        hchanged⟩

/-- The steps of disjoint ranges sweep them one after another. Together they report a change if a
label of one of the ranges is not what it was before the iteration. -/
theorem sweep_eq_ok {steps swept : List PropagationStep} {changed : Bool}
    (hreads : ∀ step ∈ steps, step.Reads view nodeWeights)
    (hdisjoint : (steps.map PropagationStep.range).Pairwise
      (Function.onFun List.Disjoint NodeRange.nodes))
    (h : computation.sweep k steps world = (swept, later, .ok changed))
    (hsize : (world.buffers.labels (.after k)).size = (world.buffers.labels (.before k)).size) :
    swept.map PropagationStep.range = steps.map PropagationStep.range ∧
      (∀ step ∈ swept, step.Reads view nodeWeights) ∧
      later.buffers.labels (.before k) = world.buffers.labels (.before k) ∧
      later.buffers.labels (.after k) = (steps.map PropagationStep.range).foldl
        (stepLabels (view.votes nodeWeights) (world.buffers.labels (.before k)))
        (world.buffers.labels (.after k)) ∧
      (changed = true ↔ ∃ range ∈ steps.map PropagationStep.range,
        ¬ range.Agree (later.buffers.labels (.after k)) (world.buffers.labels (.before k))) := by
  induction steps generalizing world swept changed with
  | nil =>
    obtain ⟨rfl, hworld⟩ := Prod.mk.inj h
    obtain ⟨rfl, hflag⟩ := Prod.mk.inj hworld
    obtain rfl := Except.ok.inj hflag
    exact ⟨rfl, nofun, rfl, rfl, by simp⟩
  | cons step steps ih =>
    obtain ⟨moved, between, flag, others, rest, hcompute, hrest, rfl, rfl⟩ :=
      Computation.exists_of_sweep_cons h
    rw [List.map_cons, List.pairwise_cons] at hdisjoint
    obtain ⟨hrange, hmoved, hbefore, hafter, hchanged⟩ :=
      compute_eq_ok (hreads step List.mem_cons_self) hcompute hsize
    have hnext : (between.buffers.labels (.after k)).size =
        (between.buffers.labels (.before k)).size := by
      rw [hbefore, hafter, size_stepLabels, hsize]
    obtain ⟨hranges, hothers, hold, hlabels, hrestChanged⟩ := ih
      (fun other hother ↦ hreads other (List.mem_cons_of_mem _ hother)) hdisjoint.2 hrest hnext
    rw [hbefore] at hold hlabels hrestChanged
    refine ⟨?_, ?_, hold, ?_, ?_⟩
    · rw [List.map_cons, List.map_cons, hrange, hranges]
    · intro other hother
      rcases List.mem_cons.mp hother with rfl | hother
      · exact hmoved
      · exact hothers other hother
    · rw [List.map_cons, List.foldl_cons, hlabels, hafter]
    · have hsame : step.range.Agree (later.buffers.labels (.after k))
          (world.buffers.labels (.before k)) ↔ step.range.Agree (between.buffers.labels (.after k))
            (world.buffers.labels (.before k)) := by
        rw [hlabels]
        exact agree_foldl_stepLabels_iff (hbefore ▸ hnext) hdisjoint.1
      simp only [List.map_cons, List.mem_cons, exists_eq_or_imp, Bool.or_eq_true, hchanged,
        hrestChanged, hsame]

/-! ## Runs -/

/-- The steps and buffers after some iterations, each of which has changed a label. -/
structure Propagated (view : View) (nodeWeights : Option Column) (ranges : List NodeRange)
    (initial : Array UInt64) (k : Nat) (steps : List PropagationStep) (world : PropagationWorld) :
    Prop where
  ranges_eq : steps.map PropagationStep.range = ranges
  reads : ∀ step ∈ steps, step.Reads view nodeWeights
  before_eq : world.buffers.labels (.before k) =
    (sweepLabels (view.votes nodeWeights) ranges)^[k] initial
  size_after : (world.buffers.labels (.after k)).size = initial.size
  changes : ∀ i < k, (sweepLabels (view.votes nodeWeights) ranges)^[i + 1] initial ≠
    (sweepLabels (view.votes nodeWeights) ranges)^[i] initial

section Runs

variable {ranges : List NodeRange} {initial : Array UInt64} {steps swept : List PropagationStep}

/-- One more iteration applies one more sweep, and reports whether it changed a label. -/
theorem Propagated.sweep (h : Propagated view nodeWeights ranges initial k steps world)
    (hsplit : ranges.flatMap NodeRange.nodes = List.range initial.size) {changed : Bool}
    (hsweep : computation.sweep k steps world = (swept, later, .ok changed)) :
    let sweep := sweepLabels (view.votes nodeWeights) ranges
    swept.map PropagationStep.range = ranges ∧
      (∀ step ∈ swept, step.Reads view nodeWeights) ∧
      later.buffers.labels (.before k) = sweep^[k] initial ∧
      later.buffers.labels (.after k) = sweep^[k + 1] initial ∧
      (changed = true ↔ sweep^[k + 1] initial ≠ sweep^[k] initial) := by
  intro sweep
  have hsizes : (sweep^[k] initial).size = initial.size := size_iterate_sweepLabels k
  have hdisjoint : (steps.map PropagationStep.range).Pairwise
      (Function.onFun List.Disjoint NodeRange.nodes) := by
    have hnodup : (ranges.flatMap NodeRange.nodes).Nodup := hsplit ▸ List.nodup_range
    rw [h.ranges_eq]
    exact (List.nodup_flatMap.mp hnodup).2
  have hsize : (world.buffers.labels (.after k)).size =
      (world.buffers.labels (.before k)).size := by
    rw [h.size_after, h.before_eq, hsizes]
  obtain ⟨hranges, hreads, hbefore, hafter, hchanged⟩ :=
    sweep_eq_ok h.reads hdisjoint hsweep hsize
  rw [h.ranges_eq] at hranges hafter hchanged
  have hcover : (ranges.flatMap NodeRange.nodes).Perm
      (List.range (world.buffers.labels (.before k)).size) := by
    rw [h.before_eq, hsizes, hsplit]
  have hswept : later.buffers.labels (.after k) = sweep^[k + 1] initial := by
    rw [hafter, foldl_stepLabels_eq hcover hsize, h.before_eq, Function.iterate_succ_apply']
  refine ⟨hranges, hreads, hbefore.trans h.before_eq, hswept, ?_⟩
  rw [hchanged, ← hswept, ← h.before_eq]
  apply exists_not_agree_iff_ne hcover
  rw [hswept, h.before_eq, hsizes]
  exact size_iterate_sweepLabels (k + 1)

theorem propagated_of_reaches (hsplit : ranges.flatMap NodeRange.nodes = List.range initial.size)
    (hstart : Propagated view nodeWeights ranges initial 0 steps world)
    {now : List PropagationStep} (hreaches : computation.Reaches steps world k now between) :
    Propagated view nodeWeights ranges initial k now between := by
  induction hreaches with
  | start => exact hstart
  | @next k now after between final _ hproceeds ih =>
    obtain ⟨swept, later, hsweep, hbarrier⟩ := hproceeds
    obtain ⟨rfl, hworld⟩ := Prod.mk.inj hbarrier
    obtain ⟨rfl, _⟩ := Prod.mk.inj hworld
    obtain ⟨hranges, hreads, hbefore, hafter, hchanged⟩ := ih.sweep hsplit hsweep
    have hsize : (later.buffers.labels (.after (k + 1))).size = initial.size := by
      rw [Buffer.after_succ, hbefore]
      exact size_iterate_sweepLabels k
    exact ⟨hranges, hreads, hafter, hsize,
      Nat.forall_lt_succ_right.mpr ⟨ih.changes, hchanged.mp rfl⟩⟩

/-- What a run that ends has done with the labels. -/
theorem outcome_of_run (hsplit : ranges.flatMap NodeRange.nodes = List.range initial.size)
    (hstart : Propagated view nodeWeights ranges initial 0 steps world) {stops : Nat → Bool}
    {outcome : Outcome} (hresult : (computation.run stops steps world).result = .ok outcome) :
    let sweep := sweepLabels (view.votes nodeWeights) ranges
    let k := outcome.iterations
    (computation.run stops steps world).world.buffers.labels (.before k) = sweep^[k] initial ∧
      (∀ i, i + 1 < k → sweep^[i + 1] initial ≠ sweep^[i] initial) ∧
      (outcome.didConverge = true ↔ 1 ≤ k ∧ sweep^[k] initial = sweep^[k - 1] initial) ∧
      (outcome.didConverge = false → stops k = true) := by
  intro sweep k
  obtain ⟨completed, now, between, ended, _, hreaches, _, hends, hrun⟩ :=
    computation.exists_ends stops steps world
  have hpropagated := propagated_of_reaches hsplit hstart hreaches
  have hended : ended.result = .ok outcome := (congrArg Ended.result hrun).symm.trans hresult
  have hworld : (computation.run stops steps world).world = ended.world := by rw [hrun]
  rw [hworld]
  cases hends with
  | stopped hstops =>
    obtain rfl := Except.ok.inj hended
    refine ⟨hpropagated.before_eq, fun i hi ↦ hpropagated.changes i (Nat.lt_of_succ_lt hi),
      iff_of_false Bool.false_ne_true ?_, fun _ ↦ hstops⟩
    rintro ⟨hpositive, hsame⟩
    have hlast : completed - 1 + 1 = completed := Nat.sub_add_cancel hpositive
    have hchange := hpropagated.changes (completed - 1) (Nat.sub_lt hpositive Nat.one_pos)
    rw [hlast] at hchange
    exact hchange hsame
  | unchanged _ hsweep =>
    obtain rfl := Except.ok.inj hended
    obtain ⟨_, _, _, hafter, hchanged⟩ := hpropagated.sweep hsplit hsweep
    have hsame : sweep^[completed + 1] initial = sweep^[completed] initial := by
      by_contra hne
      exact Bool.false_ne_true (hchanged.mpr hne)
    exact ⟨hafter, fun i hi ↦ hpropagated.changes i (Nat.lt_of_succ_lt_succ hi),
      iff_of_true rfl ⟨Nat.succ_pos completed, hsame⟩, nofun⟩
  | halted _ _ hbarrier => exact absurd (congrArg (·.2.2) hbarrier) nofun
  | interrupted | exhausted | failed | barrierFailed => exact nomatch hended

end Runs

end PropagationStep

namespace LabelPropagation

variable {propagation : LabelPropagation}

theorem length_readSeeds {column : Column} {nodes : List Nat} {seeds : List (Option Nat)}
    (h : readSeeds column nodes = .ok seeds) : seeds.length = nodes.length := by
  induction nodes generalizing seeds with
  | nil =>
    obtain rfl := Except.ok.inj h
    rfl
  | cons node nodes ih =>
    have hcons (seed : Option Nat)
        (hrest : (do return seed :: (← readSeeds column nodes)) = Except.ok seeds) :
        seeds.length = (node :: nodes).length := by
      obtain ⟨others, hothers, hseeds⟩ := exists_of_bind_eq_ok hrest
      obtain rfl := Except.ok.inj hseeds
      rw [List.length_cons, List.length_cons, ih hothers]
    rw [readSeeds] at h
    split at h
    · exact nomatch h
    · exact hcons none h
    · split_ifs at h
      · exact nomatch h
      · exact hcons _ h

/-- Every node has an initial label. -/
theorem size_initialLabels {initial : Array UInt64} (h : propagation.initialLabels = .ok initial) :
    initial.size = propagation.view.nodeCount := by
  unfold initialLabels at h
  cases hkey : propagation.seedKey with
  | none =>
    simp only [hkey] at h
    rw [← Except.ok.inj h]
    simp
  | some key =>
    simp only [hkey] at h
    obtain ⟨column, _, hread⟩ := exists_of_bind_eq_ok h
    obtain ⟨seeds, hseeds, hlabels⟩ := exists_of_bind_eq_ok hread
    have hlength := length_readSeeds hseeds
    rw [List.length_range] at hlength
    rw [← Except.ok.inj hlabels, ← hlength]
    simp [seedLabels]

/-- The parts of a propagation that succeeds. -/
theorem exists_of_propagate_eq_ok {stops : Nat → Bool} {labels : Array UInt64} {outcome : Outcome}
    (h : propagation.propagate stops = .ok (labels, outcome)) :
    ∃ nodeWeights initial ranges,
      propagation.weightKey.mapM (propagation.view.columnFor .nodeWeight) = .ok nodeWeights ∧
      propagation.initialLabels = .ok initial ∧
      degreePartition propagation.view propagation.concurrency = .ok ranges ∧
      let steps : List PropagationStep :=
        ranges.map fun range ↦ ⟨propagation.view.fresh, range, nodeWeights⟩
      let ended := PropagationStep.computation.run stops steps
        ⟨⟨initial, initial⟩, propagation.isTerminated⟩
      ended.result = .ok outcome ∧
        labels = ended.world.buffers.labels (.before outcome.iterations) := by
  unfold propagate at h
  obtain ⟨nodeWeights, hweights, h⟩ := exists_of_bind_eq_ok h
  obtain ⟨initial, hinitial, h⟩ := exists_of_bind_eq_ok h
  obtain ⟨ranges, hranges, h⟩ := exists_of_bind_eq_ok h
  obtain ⟨_, hresult, hreturn⟩ := exists_of_bind_eq_ok h
  obtain ⟨rfl, rfl⟩ := Prod.mk.inj (Except.ok.inj hreturn)
  exact ⟨nodeWeights, initial, ranges, eq_ok_of_mapError_eq_ok hweights, hinitial,
    eq_ok_of_mapError_eq_ok hranges, eq_ok_of_mapError_eq_ok hresult, rfl⟩

end LabelPropagation

/-- A successful run returns the labels after as many sweeps of the initial labels as there were
iterations. All sweeps before the last one have changed a label. The run has converged if the last
one has not, and otherwise the rule has stopped it. -/
theorem propagation_iterates_sweep {propagation after : LabelPropagation} {stops : Nat → Bool}
    (h : propagation.run stops = (after, .ok ())) :
    ∃ nodeWeights initial ranges,
      propagation.weightKey.mapM (propagation.view.columnFor .nodeWeight) = .ok nodeWeights ∧
      propagation.initialLabels = .ok initial ∧
      degreePartition propagation.view propagation.concurrency = .ok ranges ∧
      let sweep := sweepLabels (propagation.view.votes nodeWeights) ranges
      let k := after.iterations
      after.labels = sweep^[k] initial ∧
      (∀ i, i + 1 < k → sweep^[i + 1] initial ≠ sweep^[i] initial) ∧
      (after.didConverge = true ↔ 1 ≤ k ∧ sweep^[k] initial = sweep^[k - 1] initial) ∧
      (after.didConverge = false → stops k = true) := by
  rw [LabelPropagation.run] at h
  cases hpropagate : propagation.propagate stops with
  | error error =>
    rw [hpropagate] at h
    exact absurd (congrArg Prod.snd h) nofun
  | ok found =>
    obtain ⟨labels, outcome⟩ := found
    rw [hpropagate] at h
    obtain ⟨rfl, _⟩ := Prod.mk.inj h
    obtain ⟨nodeWeights, initial, ranges, hweights, hinitial, hranges, hresult, rfl⟩ :=
      LabelPropagation.exists_of_propagate_eq_ok hpropagate
    have hsplit : ranges.flatMap NodeRange.nodes = List.range initial.size := by
      rw [flatMap_degreePartition hranges, LabelPropagation.size_initialLabels hinitial]
    have hstart : PropagationStep.Propagated propagation.view nodeWeights ranges initial 0
        (ranges.map fun range ↦ ⟨propagation.view.fresh, range, nodeWeights⟩)
        ⟨⟨initial, initial⟩, propagation.isTerminated⟩ := by
      refine ⟨?_, ?_, rfl, rfl, nofun⟩
      · rw [List.map_map]
        exact List.map_id ranges
      · intro step hstep
        obtain ⟨range, _, rfl⟩ := List.mem_map.mp hstep
        exact ⟨propagation.view.fresh_fresh, rfl⟩
    exact ⟨nodeWeights, initial, ranges, hweights, hinitial, hranges,
      PropagationStep.outcome_of_run hsplit hstart hresult⟩

/-- Two neighbours, each of which is a range of its own. -/
def neighbours : LabelPropagation :=
  let view : View := .packed {
    ids := ⟨∅, #[5, 7], ∅⟩
    columns := ∅
    topology := some ⟨{
      block := ⟨⟨5, by decide, by decide⟩, #[#[0, 1, 0]]⟩
      index := ⟨#[⟨1, 1⟩, ⟨2, 1⟩]⟩
      elementCount := 2
      orientation := .undirected
      charge := none }, .exhausted⟩
    values := none
    relationshipCount := 2
    isUndirected := true
    hasValues := false
    canRelease := true
    blockTable := 0 }
  { LabelPropagation.new view with concurrency := 2 }

theorem neighbours_swap_labels_in_each_sweep :
    (neighbours.run (3 ≤ ·)).2 = .ok () ∧
      ∃ nodeWeights ranges,
        (sweepLabels (neighbours.view.votes nodeWeights) ranges)^[3] #[0, 1] = #[1, 0] ∧
        (sweepLabels (neighbours.view.votes nodeWeights) ranges)^[2] #[0, 1] ≠ #[1, 0] := by
  have hpair (run : LabelPropagation × Except AlgorithmError Unit) (h : run.2 = .ok ()) :
      run = (run.1, .ok ()) := Prod.ext rfl h
  have hsuccess : (neighbours.run (3 ≤ ·)).2 = .ok () := by decide +kernel
  have hiterations : (neighbours.run (3 ≤ ·)).1.iterations = 3 := by decide +kernel
  have hlabels : (neighbours.run (3 ≤ ·)).1.labels = #[1, 0] := by decide +kernel
  have hstopped : (neighbours.run (3 ≤ ·)).1.didConverge = false := by decide +kernel
  have hrun := hpair _ hsuccess
  generalize (neighbours.run (3 ≤ ·)).1 = after at hrun hiterations hlabels hstopped
  obtain ⟨nodeWeights, initial, ranges, _, hinitial, _, hswept, _, hconverged, _⟩ :=
    propagation_iterates_sweep hrun
  have hidentity : neighbours.initialLabels = .ok #[0, 1] := rfl
  obtain rfl := Except.ok.inj (hidentity.symm.trans hinitial)
  rw [hiterations] at hswept hconverged
  rw [hlabels] at hswept
  refine ⟨hsuccess, nodeWeights, ranges, hswept.symm, fun hsame ↦ ?_⟩
  have hunchanged := hconverged.mpr ⟨by decide, hswept.symm.trans hsame.symm⟩
  exact absurd (hstopped.symm.trans hunchanged) Bool.false_ne_true

end PackedGraph
