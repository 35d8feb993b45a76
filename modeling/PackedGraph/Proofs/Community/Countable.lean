import Mathlib
import PackedGraph.Proofs.Community.Iterations

/-!
# Iterations that cannot fail

A step fails only on a node whose votes cannot be counted: its relationships cannot be read, lead
out of the label buffers, or lead to a node whose weight cannot be read. After one iteration without
a failure the votes of all nodes can be counted, so no iteration fails, whatever the labels are and
however the nodes are split.
-/

namespace PackedGraph

/-! ## Programs that cannot fail -/

/-- Both buffers hold a number of labels. -/
def LabelBuffers.Sized (buffers : LabelBuffers) (count : Nat) : Prop :=
  ∀ buffer, (buffers.labels buffer).size = count

namespace LabelBuffers

variable {buffers : LabelBuffers} {count cell : Nat} {buffer : Buffer} {label : UInt64}

theorem sized_of_size_eq {k : Nat} (hbefore : (buffers.labels (.before k)).size = count)
    (hafter : (buffers.labels (.after k)).size = count) : buffers.Sized count := by
  intro buffer
  have hone : buffer = .before k ∨ buffer = .after k := by
    have hne := Buffer.after_ne_before k
    generalize Buffer.after k = after at hne
    generalize Buffer.before k = before at hne
    cases buffer <;> cases after <;> cases before <;> simp_all
  rcases hone with rfl | rfl
  · exact hbefore
  · exact hafter

theorem Sized.exists_read (h : buffers.Sized count) (buffer : Buffer) (hcell : cell < count) :
    ∃ label, buffers.read buffer cell = some label := by
  have hsize : cell < (buffers.labels buffer).size := h buffer ▸ hcell
  exact ⟨_, Array.getElem?_eq_getElem hsize⟩

theorem Sized.lt_of_read (h : buffers.Sized count) (hread : buffers.read buffer cell = some label) :
    cell < count := by
  rw [← h buffer]
  exact (Array.getElem?_eq_some_iff.mp hread).1

theorem Sized.write (h : buffers.Sized count) (buffer : Buffer) (cell : Nat) (label : UInt64) :
    (buffers.write buffer cell label).Sized count := by
  intro other
  by_cases hother : other = buffer
  · rw [hother, labels_write_self, Array.size_setIfInBounds, h]
  · rw [labels_write_of_ne _ hother, h]

end LabelBuffers

namespace LabelProgram

variable {ε α β : Type} {count : Nat}

/-- A program that does not fail on buffers of a size: all its accesses are to cells of them. -/
inductive Total (count : Nat) : LabelProgram ε α → Prop
  | done (result : α) : Total count (done result)
  | read {buffer : Buffer} {cell : Nat} {next : UInt64 → LabelProgram ε α} :
    cell < count → (∀ label, Total count (next label)) → Total count (read buffer cell next)
  | write {buffer : Buffer} {cell : Nat} {label : UInt64} {next : LabelProgram ε α} :
    cell < count → Total count next → Total count (write buffer cell label next)

theorem Total.bind {program : LabelProgram ε α} {f : α → LabelProgram ε β}
    (h : Total count program) (hf : ∀ result, Total count (f result)) :
    Total count (program >>= f) := by
  induction h with
  | done result => exact hf result
  | read hcell _ ih => exact .read hcell ih
  | write hcell _ ih => exact .write hcell ih

theorem Total.readCell {cell : Nat} (buffer : Buffer) (hcell : cell < count) :
    Total count (LabelProgram.readCell buffer cell : LabelProgram ε UInt64) :=
  .read hcell .done

theorem Total.writeCell {cell : Nat} (buffer : Buffer) (label : UInt64) (hcell : cell < count) :
    Total count (LabelProgram.writeCell buffer cell label : LabelProgram ε Unit) :=
  .write hcell (.done ())

/-- A total program succeeds, and keeps the sizes of the buffers. -/
theorem Total.exists_run_eq {program : LabelProgram ε α} (h : Total count program)
    (ofFault : Fault → ε) {buffers : LabelBuffers} (hsized : buffers.Sized count) :
    ∃ after result, program.run ofFault buffers = (after, .ok result) ∧ after.Sized count := by
  induction h generalizing buffers with
  | done result => exact ⟨buffers, result, rfl, hsized⟩
  | @read buffer cell next hcell _ ih =>
    obtain ⟨label, hread⟩ := hsized.exists_read buffer hcell
    rw [run, hread]
    exact ih label hsized
  | @write buffer cell label next hcell _ ih =>
    obtain ⟨old, hread⟩ := hsized.exists_read buffer hcell
    rw [run, hread, if_pos Option.isSome_some]
    exact ih (hsized.write buffer cell label)

end LabelProgram

/-! ## Nodes whose votes can be counted -/

/-- The relationships of a node can be read with their values, and they lead to nodes of the view
whose weights can be read. -/
structure View.Countable (view : View) (nodeWeights : Option Column) (node : Nat) : Prop where
  ending_eq : (view.valueReading node .one).ending = .ok ()
  target_lt : ∀ pair ∈ view.valuedTargets node .one, pair.1 < view.nodeCount
  weight_eq : ∀ pair ∈ view.valuedTargets node .one, ∀ column ∈ nodeWeights,
    ∃ weight, column.doubleValue pair.1 = .ok weight

namespace View

variable {view other : View} {nodeWeights : Option Column} {node : Nat}

theorem Countable.congr (h : view.Countable nodeWeights node) (hdata : view.fresh = other.fresh) :
    other.Countable nodeWeights node := by
  have hreading := valueReading_congr hdata node .one
  have htargets : view.valuedTargets node .one = other.valuedTargets node .one :=
    congrArg Reading.elements hreading
  have hcount := nodeCount_congr hdata
  obtain ⟨hending, hlt, hweight⟩ := h
  exact ⟨hreading ▸ hending, htargets ▸ hcount ▸ hlt, htargets ▸ hweight⟩

/-- The votes come from the targets of the node. -/
theorem Countable.map_fst_votes (h : view.Countable nodeWeights node) :
    (view.votes nodeWeights node).map Prod.fst = view.targets node := by
  rw [votes, List.map_map, targets, reading_of_valueReading h.ending_eq]
  rfl

end View

namespace PropagationStep

variable {k : Nat} {step : PropagationStep} {buffers after : LabelBuffers} {view : View}
variable {nodeWeights : Option Column}

theorem nodeWeight_eq_ok_iff {node : Nat} :
    (∃ weight, step.nodeWeight node = .ok weight) ↔
      ∀ column ∈ step.nodeWeights, ∃ weight, column.doubleValue node = .ok weight := by
  unfold nodeWeight
  cases step.nodeWeights with
  | none => simp
  | some column =>
    cases hvalue : column.doubleValue node with
    | error fault => simp [hvalue, Except.map]
    | ok value => simp [hvalue, Except.map]

/-! ## Steps that succeed -/

theorem targets_of_run_countVotes {pairs : List (Nat × ValueBits)} {tally total : VoteTally}
    (hsized : buffers.Sized view.nodeCount)
    (h : (step.countVotes k tally pairs).run .broken buffers = (after, .ok total)) :
    ∀ pair ∈ pairs, pair.1 < view.nodeCount ∧ ∃ weight, step.nodeWeight pair.1 = .ok weight := by
  induction pairs generalizing tally with
  | nil => exact nofun
  | cons pair pairs ih =>
    obtain ⟨label, hread, hrest⟩ := LabelProgram.exists_of_run_readCell h
    cases hweight : step.nodeWeight pair.1 with
    | error fault =>
      simp only [hweight] at hrest
      exact absurd (congrArg Prod.snd hrest) nofun
    | ok weight =>
      simp only [hweight] at hrest
      exact List.forall_mem_cons.mpr ⟨⟨hsized.lt_of_read hread, weight, hweight⟩, ih hrest⟩

/-- A step that gives a node its label has counted the votes of the node. -/
theorem countable_of_run_adoptLabels {reader : View} {nodes : List Nat} {changed : Bool}
    {result : View × Bool} (hreader : reader.fresh = view.fresh)
    (hsized : buffers.Sized view.nodeCount)
    (h : (step.adoptLabels k reader changed nodes).run .broken buffers = (after, .ok result)) :
    ∀ node ∈ nodes, view.Countable step.nodeWeights node := by
  induction nodes generalizing reader buffers changed with
  | nil => exact nofun
  | cons node nodes ih =>
    obtain ⟨next, flag, between, hrest, hnext, hold, hadopted, _⟩ := exists_of_run_adoptLabels_cons h
    have hbetween : between.Sized view.nodeCount := by
      refine LabelBuffers.sized_of_size_eq (hold ▸ hsized _) ?_
      rw [hadopted, adopt, Array.size_setIfInBounds, hsized]
    refine List.forall_mem_cons.mpr ⟨?_, ih (hnext.trans hreader) hbetween hrest⟩
    obtain ⟨counted, tally, hcount, hadopt⟩ := LabelProgram.exists_of_run_bind h
    have htargets := targets_of_run_countVotes hsized hcount
    rw [(reader.relationshipsWithValues_eq node .one).1] at htargets
    have hending : (reader.valueReading node .one).ending = .ok () := by
      rw [← reader.outcome_relationshipsWithValues]
      cases houtcome : (reader.relationshipsWithValues node .one none).outcome with
      | error error =>
        simp only [houtcome] at hadopt
        cases congrArg Prod.snd hadopt
      | ok _ => rfl
    have hcountable : reader.Countable step.nodeWeights node :=
      ⟨hending, fun pair hpair ↦ View.nodeCount_congr hreader ▸ (htargets pair hpair).1,
        fun pair hpair ↦ nodeWeight_eq_ok_iff.mp (htargets pair hpair).2⟩
    exact hcountable.congr hreader

theorem sized_of_run_copyLabels {nodes : List Nat} {count : Nat} (hsized : buffers.Sized count)
    (h : (copyLabels k nodes).run .broken buffers = (after, .ok ())) : after.Sized count := by
  obtain ⟨hold, hcopied⟩ := run_copyLabels h
  refine LabelBuffers.sized_of_size_eq (hold ▸ hsized _) ?_
  rw [hcopied, size_foldl_copyLabel, hsized]

variable {world between later : PropagationWorld}

theorem countable_of_compute (hreads : step.Reads view nodeWeights)
    (hsized : world.buffers.Sized view.nodeCount) {moved : PropagationStep} {changed : Bool}
    (h : computation.compute k step world = (moved, between, .ok changed)) :
    ∀ node ∈ step.range.nodes, view.Countable nodeWeights node := by
  have hcompute : computation.compute k step world = compute k step world := rfl
  rw [hcompute, compute] at h
  rcases hrun : (step.program k).run .broken world.buffers with ⟨buffers, error | result⟩
  · rw [hrun] at h
    cases congrArg (·.2.2) h
  · obtain ⟨copied, _, hcopy, hadopt⟩ := LabelProgram.exists_of_run_bind hrun
    rw [← hreads.nodeWeights_eq]
    exact countable_of_run_adoptLabels hreads.fresh_eq (sized_of_run_copyLabels hsized hcopy) hadopt

theorem sized_of_compute (hreads : step.Reads view nodeWeights) {count : Nat}
    (hsized : world.buffers.Sized count) {moved : PropagationStep} {changed : Bool}
    (h : computation.compute k step world = (moved, between, .ok changed)) :
    between.buffers.Sized count := by
  obtain ⟨_, _, hold, hswept, _⟩ :=
    compute_eq_ok hreads h ((hsized _).trans (hsized _).symm)
  refine LabelBuffers.sized_of_size_eq (hold ▸ hsized _) ?_
  rw [hswept, size_stepLabels, hsized]

/-- An iteration without a failure has counted the votes of all nodes. -/
theorem countable_of_sweep {steps swept : List PropagationStep} {changed : Bool}
    (hreads : ∀ step ∈ steps, step.Reads view nodeWeights)
    (hsized : world.buffers.Sized view.nodeCount)
    (h : computation.sweep k steps world = (swept, later, .ok changed)) :
    ∀ step ∈ steps, ∀ node ∈ step.range.nodes, view.Countable nodeWeights node := by
  induction steps generalizing world swept changed with
  | nil => exact nofun
  | cons step steps ih =>
    obtain ⟨moved, between, flag, others, rest, hcompute, hrest, _⟩ :=
      Computation.exists_of_sweep_cons h
    obtain ⟨hstep, hsteps⟩ := List.forall_mem_cons.mp hreads
    exact List.forall_mem_cons.mpr ⟨countable_of_compute hstep hsized hcompute,
      ih hsteps (sized_of_compute hstep hsized hcompute) hrest⟩

/-! ## Steps that cannot fail -/

section Total

variable {count : Nat}

theorem total_copyLabels {nodes : List Nat} (h : ∀ node ∈ nodes, node < count) :
    (copyLabels k nodes).Total count := by
  induction nodes with
  | nil => exact .done ()
  | cons node nodes ih =>
    obtain ⟨hnode, hnodes⟩ := List.forall_mem_cons.mp h
    refine .bind (.readCell _ hnode) fun label ↦ ?_
    exact .bind (.writeCell _ label hnode) fun _ ↦ ih hnodes

theorem total_countVotes (tally : VoteTally) {pairs : List (Nat × ValueBits)}
    (h : ∀ pair ∈ pairs, pair.1 < count ∧ ∃ weight, step.nodeWeight pair.1 = .ok weight) :
    (step.countVotes k tally pairs).Total count := by
  induction pairs generalizing tally with
  | nil => exact .done tally
  | cons pair pairs ih =>
    obtain ⟨⟨htarget, weight, hweight⟩, hpairs⟩ := List.forall_mem_cons.mp h
    refine .bind (.readCell _ htarget) fun label ↦ ?_
    simp only [hweight]
    exact ih _ hpairs

theorem total_adoptLabels {nodes : List Nat} {reader : View} (hreader : reader.fresh = view.fresh)
    (h : ∀ node ∈ nodes, node < view.nodeCount ∧ view.Countable step.nodeWeights node)
    (changed : Bool) : (step.adoptLabels k reader changed nodes).Total view.nodeCount := by
  induction nodes generalizing reader changed with
  | nil => exact .done _
  | cons node nodes ih =>
    obtain ⟨⟨hnode, hcountable⟩, hnodes⟩ := List.forall_mem_cons.mp h
    obtain ⟨hending, htargets, hweights⟩ := hcountable.congr hreader.symm
    obtain ⟨hpairs, hfresh⟩ := reader.relationshipsWithValues_eq node .one
    have houtcome : (reader.relationshipsWithValues node .one none).outcome = .ok () :=
      (reader.outcome_relationshipsWithValues node .one).trans hending
    refine .bind (total_countVotes [] ?_) fun tally ↦ ?_
    · rw [hpairs]
      exact fun pair hpair ↦ ⟨View.nodeCount_congr hreader ▸ htargets pair hpair,
        nodeWeight_eq_ok_iff.mpr (hweights pair hpair)⟩
    · simp only [houtcome]
      refine .bind (.readCell _ hnode) fun label ↦ ?_
      by_cases hwinner : tally.winner label = label
      · simp only [if_pos hwinner]
        exact ih (hfresh.trans hreader) hnodes _
      · simp only [if_neg hwinner]
        exact .bind (.writeCell _ _ hnode) fun _ ↦ ih (hfresh.trans hreader) hnodes _

end Total

/-- A step on nodes whose votes can be counted succeeds. -/
theorem exists_compute_eq_ok (hreads : step.Reads view nodeWeights)
    (hcountable :
      ∀ node ∈ step.range.nodes, node < view.nodeCount ∧ view.Countable nodeWeights node)
    (hsized : world.buffers.Sized view.nodeCount) :
    ∃ moved between changed, computation.compute k step world = (moved, between, .ok changed) := by
  rw [← hreads.nodeWeights_eq] at hcountable
  have htotal : (step.program k).Total view.nodeCount :=
    .bind (total_copyLabels fun node hnode ↦ (hcountable node hnode).1)
      fun _ ↦ total_adoptLabels hreads.fresh_eq hcountable false
  obtain ⟨buffers, result, hrun, _⟩ := htotal.exists_run_eq .broken hsized
  have hcompute : computation.compute k step world = compute k step world := rfl
  rw [hcompute, compute, hrun]
  exact ⟨_, _, _, rfl⟩

/-- No iteration fails on nodes whose votes can be counted. -/
theorem exists_sweep_eq_ok {steps : List PropagationStep}
    (hreads : ∀ step ∈ steps, step.Reads view nodeWeights)
    (hcountable : ∀ step ∈ steps, ∀ node ∈ step.range.nodes,
      node < view.nodeCount ∧ view.Countable nodeWeights node)
    (hsized : world.buffers.Sized view.nodeCount) :
    ∃ swept later changed, computation.sweep k steps world = (swept, later, .ok changed) := by
  induction steps generalizing world with
  | nil => exact ⟨[], world, false, rfl⟩
  | cons step steps ih =>
    obtain ⟨hstep, hsteps⟩ := List.forall_mem_cons.mp hreads
    obtain ⟨hnodes, hrest⟩ := List.forall_mem_cons.mp hcountable
    obtain ⟨moved, between, changed, hcompute⟩ := exists_compute_eq_ok (k := k) hstep hnodes hsized
    obtain ⟨swept, later, others, hsweep⟩ :=
      ih hsteps hrest (sized_of_compute hstep hsized hcompute)
    rw [Computation.sweep, hcompute]
    simp only [hsweep]
    exact ⟨_, _, _, rfl⟩

end PropagationStep

namespace LabelPropagation

/-- A successful run sweeps the initial labels. If it does so at all, the votes of all nodes can be
counted. -/
theorem exists_iterate_of_run {propagation after : LabelPropagation} {stops : Nat → Bool}
    (h : propagation.run stops = (after, .ok ())) :
    ∃ nodeWeights initial ranges,
      propagation.weightKey.mapM (propagation.view.columnFor .nodeWeight) = .ok nodeWeights ∧
      propagation.initialLabels = .ok initial ∧
      ranges.flatMap NodeRange.nodes = List.range propagation.view.nodeCount ∧
      let sweep := sweepLabels (propagation.view.votes nodeWeights) ranges
      let k := after.iterations
      after.labels = sweep^[k] initial ∧
      (after.didConverge = true → 1 ≤ k ∧ sweep^[k] initial = sweep^[k - 1] initial) ∧
      (k ≠ 0 → ∀ node < propagation.view.nodeCount,
        propagation.view.Countable nodeWeights node) := by
  rw [run] at h
  rcases hpropagate : propagation.propagate stops with error | ⟨labels, outcome⟩
  · rw [hpropagate] at h
    cases congrArg Prod.snd h
  rw [hpropagate] at h
  obtain ⟨rfl, _⟩ := Prod.mk.inj h
  obtain ⟨nodeWeights, initial, ranges, hweights, hinitial, hranges, hresult, rfl⟩ :=
    exists_of_propagate_eq_ok hpropagate
  have hsize := size_initialLabels hinitial
  have hsplit := flatMap_degreePartition hranges
  have hcover : ranges.flatMap NodeRange.nodes = List.range initial.size := hsize ▸ hsplit
  have hstart : PropagationStep.Propagated propagation.view nodeWeights ranges initial 0
      (ranges.map fun range ↦ ⟨propagation.view.fresh, range, nodeWeights⟩)
      ⟨⟨initial, initial⟩, propagation.isTerminated⟩ := by
    refine ⟨?_, ?_, rfl, rfl, fun i hi ↦ absurd hi (Nat.not_lt_zero i)⟩
    · rw [List.map_map]
      exact List.map_id ranges
    · intro step hstep
      obtain ⟨range, _, rfl⟩ := List.mem_map.mp hstep
      exact ⟨propagation.view.fresh_fresh, rfl⟩
  obtain ⟨hlabels, _, hconverged, _⟩ := PropagationStep.outcome_of_run hcover hstart hresult
  refine ⟨nodeWeights, initial, ranges, hweights, hinitial, hsplit, hlabels, hconverged.mp, ?_⟩
  intro hpositive node hnode
  obtain ⟨k, now, between, swept, later, changed, hreaches, hsweep⟩ :=
    PropagationStep.computation.exists_sweep_of_run hresult hpositive
  have hreached := PropagationStep.propagated_of_reaches hcover hstart hreaches
  have hsized : between.buffers.Sized propagation.view.nodeCount := by
    apply LabelBuffers.sized_of_size_eq (k := k)
    · rw [hreached.before_eq, size_iterate_sweepLabels, hsize]
    · rw [hreached.size_after, hsize]
  have hmem : node ∈ ranges.flatMap NodeRange.nodes := hsplit ▸ List.mem_range.mpr hnode
  rw [← hreached.ranges_eq, List.flatMap_map, List.mem_flatMap] at hmem
  obtain ⟨step, hstep, hin⟩ := hmem
  exact PropagationStep.countable_of_sweep hreached.reads hsized hsweep step hstep node hin

end LabelPropagation

end PackedGraph
