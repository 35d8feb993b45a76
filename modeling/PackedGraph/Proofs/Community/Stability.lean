import Mathlib
import PackedGraph.Proofs.Community.Countable
import PackedGraph.Proofs.Community.Tally

/-!
# Stable labels

A labelling is stable if every node has the label that wins its votes when all of them are taken at
this labelling. A sweep keeps all labels only of a stable labelling, however the nodes are split: as
long as nothing has changed, old and new labels are the same. So the labels of a run that converges
are stable, and any further iteration reports no change.
-/

namespace PackedGraph

/-- The tally of votes that are all taken at one labelling. -/
def tallyAt (labels : Array UInt64) (votes : List (Nat × Float)) : VoteTally :=
  votes.foldl (fun tally vote ↦ tally.vote (labels.getD vote.1 0) vote.2) []

/-- Every node has the label that wins its votes. -/
def Stable (votes : Nat → List (Nat × Float)) (labels : Array UInt64) : Prop :=
  ∀ node < labels.size,
    (tallyAt labels (votes node)).winner (labels.getD node 0) = labels.getD node 0

theorem NodeRange.tally_self (range : NodeRange) (labels : Array UInt64)
    (votes : List (Nat × Float)) : range.tally labels labels votes = tallyAt labels votes := by
  have hseen : range.labelSeen labels labels = fun target ↦ labels.getD target 0 := by
    funext target
    exact ite_self _
  rw [tally, hseen]
  rfl

theorem tallyAt_ne_nil {labels : Array UInt64} {votes : List (Nat × Float)} (h : votes ≠ []) :
    tallyAt labels votes ≠ [] := by
  obtain ⟨vote, hvote⟩ := List.exists_mem_of_ne_nil votes h
  have hlabel : labels.getD vote.1 0 ∈ (tallyAt labels votes).labels :=
    VoteTally.mem_labels_foldl_vote.mpr (.inr ⟨vote, hvote, rfl⟩)
  rintro hnil
  rw [hnil] at hlabel
  exact nomatch hlabel

section Sweep

variable {votes : Nat → List (Nat × Float)} {range : NodeRange} {ranges : List NodeRange}
variable {old labels : Array UInt64} {node : Nat}

theorem adopt_eq_self_iff (hnode : node < labels.size) :
    adopt votes range labels labels node = labels ↔
      (tallyAt labels (votes node)).winner (labels.getD node 0) = labels.getD node 0 := by
  have hlabel := getElem?_eq_some_getD hnode
  rw [adopt, range.tally_self]
  constructor
  · intro heq
    have hcell := congrArg (·[node]?) heq
    rw [getElem?_setIfInBounds_eq, if_pos rfl, hlabel, Option.map_some] at hcell
    exact Option.some_inj.mp hcell
  · intro hwinner
    rw [hwinner]
    exact setIfInBounds_eq_self hlabel

/-! ## Sweeps without a change -/

/-- Changes of different cells leave a labelling as it is only if each of them does. -/
theorem foldl_eq_self_iff {α : Type} {f : Array UInt64 → α → Array UInt64} {cells : α → List Nat}
    (hframe : ∀ labels a cell, cell ∉ cells a → (f labels a)[cell]? = labels[cell]?)
    {changes : List α} (hdisjoint : changes.Pairwise (Function.onFun List.Disjoint cells)) :
    changes.foldl f labels = labels ↔ ∀ a ∈ changes, f labels a = labels := by
  have hframes (others : List α) (labels : Array UInt64) {cell : Nat}
      (hcell : ∀ a ∈ others, cell ∉ cells a) : (others.foldl f labels)[cell]? = labels[cell]? := by
    apply List.foldlRecOn (motive := fun changed ↦ changed[cell]? = labels[cell]?) others f rfl
    intro changed hchanged a ha
    exact (hframe changed a cell (hcell a ha)).trans hchanged
  induction changes with
  | nil => simp
  | cons a changes ih =>
    obtain ⟨hfirst, hrest⟩ := List.pairwise_cons.mp hdisjoint
    rw [List.foldl_cons, List.forall_mem_cons]
    constructor
    · intro heq
      have hkept : f labels a = labels := by
        apply Array.ext_getElem?
        intro cell
        by_cases hcell : cell ∈ cells a
        · have hlater : ∀ b ∈ changes, cell ∉ cells b := fun b hb ↦ hfirst b hb hcell
          rw [← hframes changes _ hlater, heq]
        · exact hframe labels a cell hcell
      rw [hkept] at heq
      exact ⟨hkept, (ih hrest).mp heq⟩
    · rintro ⟨hkept, hothers⟩
      rw [hkept]
      exact (ih hrest).mpr hothers

theorem sweepRange_eq_self_iff_adopt :
    sweepRange votes old labels range = labels ↔
      ∀ node ∈ range.nodes, adopt votes range old labels node = labels := by
  have hdisjoint : range.nodes.Pairwise (Function.onFun List.Disjoint fun node ↦ [node]) := by
    refine List.Pairwise.imp (fun hne ↦ ?_) List.nodup_range'
    rw [Function.onFun, List.singleton_disjoint, List.mem_singleton]
    exact hne
  have hframe (labels : Array UInt64) (node cell : Nat) (hcell : cell ∉ [node]) :
      (adopt votes range old labels node)[cell]? = labels[cell]? :=
    getElem?_adopt_of_ne (List.mem_singleton.not.mp hcell)
  exact foldl_eq_self_iff hframe hdisjoint

/-- A sweep keeps all labels of the stable labellings, and of no other ones. -/
theorem sweepLabels_eq_self_iff
    (hsplit : (ranges.flatMap NodeRange.nodes).Perm (List.range labels.size)) :
    sweepLabels votes ranges labels = labels ↔ Stable votes labels := by
  have hnodup : (ranges.flatMap NodeRange.nodes).Nodup := hsplit.nodup_iff.mpr List.nodup_range
  have hcovered (node : Nat) : node < labels.size ↔ ∃ range ∈ ranges, node ∈ range.nodes := by
    rw [← List.mem_range, ← hsplit.mem_iff, List.mem_flatMap]
  rw [sweepLabels, foldl_eq_self_iff (fun _ _ _ ↦ getElem?_sweepRange_of_notMem)
    (List.nodup_flatMap.mp hnodup).2]
  simp only [sweepRange_eq_self_iff_adopt]
  constructor
  · intro hkept node hnode
    obtain ⟨range, hrange, hin⟩ := (hcovered node).mp hnode
    exact (adopt_eq_self_iff hnode).mp (hkept range hrange node hin)
  · intro hstable range hrange node hin
    have hnode := (hcovered node).mpr ⟨range, hrange, hin⟩
    exact (adopt_eq_self_iff hnode).mpr (hstable node hnode)

/-! ## Nodes without relationships -/

theorem getElem?_adopt_of_votes_eq_nil (h : votes node = []) (other : Nat) :
    (adopt votes range old labels other)[node]? = labels[node]? := by
  by_cases hother : node = other
  · subst hother
    have hwinner : (range.tally old labels (votes node)).winner (labels.getD node 0) =
        labels.getD node 0 := by
      rw [h]
      rfl
    rw [adopt, hwinner, getElem?_setIfInBounds_eq, if_pos rfl]
    by_cases hnode : node < labels.size
    · rw [getElem?_eq_some_getD hnode, Option.map_some]
    · rw [Array.getElem?_eq_none (Nat.le_of_not_lt hnode), Option.map_none]
  · exact getElem?_adopt_of_ne hother

/-- Nobody votes on the label of a node without relationships, so the node keeps it. -/
theorem getElem?_iterate_sweepLabels_of_votes_eq_nil (h : votes node = []) (k : Nat) :
    ((sweepLabels votes ranges)^[k] labels)[node]? = labels[node]? := by
  induction k with
  | zero => rfl
  | succ k ih =>
    rw [Function.iterate_succ_apply', ← ih]
    apply sweepLabels_induction (motive := fun swept ↦
      swept[node]? = ((sweepLabels votes ranges)^[k] labels)[node]?) rfl
    intro range swept other hswept
    exact (getElem?_adopt_of_votes_eq_nil h other).trans hswept

end Sweep

/-- An iteration on stable labels reports no change. -/
theorem PropagationStep.sweep_of_stable {view : View} {nodeWeights : Option Column}
    {steps : List PropagationStep} {world : PropagationWorld} {k : Nat}
    (hreads : ∀ step ∈ steps, step.Reads view nodeWeights)
    (hsplit : (steps.flatMap (·.range.nodes)).Perm (List.range view.nodeCount))
    (hcountable : ∀ node < view.nodeCount, view.Countable nodeWeights node)
    (hsized : world.buffers.Sized view.nodeCount)
    (hstable : Stable (view.votes nodeWeights) (world.buffers.labels (.before k))) :
    ∃ swept later, computation.sweep k steps world = (swept, later, .ok false) ∧
      later.buffers.labels (.before k) = world.buffers.labels (.before k) ∧
      later.buffers.labels (.after k) = world.buffers.labels (.before k) := by
  have hsize : (world.buffers.labels (.after k)).size = (world.buffers.labels (.before k)).size :=
    (hsized _).trans (hsized _).symm
  have hcover : ((steps.map PropagationStep.range).flatMap NodeRange.nodes).Perm
      (List.range (world.buffers.labels (.before k)).size) := by
    rw [hsized, List.flatMap_map]
    exact hsplit
  have hnodup := hcover.nodup_iff.mpr List.nodup_range
  have hnodes : ∀ step ∈ steps, ∀ node ∈ step.range.nodes,
      node < view.nodeCount ∧ view.Countable nodeWeights node := by
    intro step hstep node hin
    have hnode := List.mem_range.mp (hsplit.mem_iff.mp (List.mem_flatMap.mpr ⟨step, hstep, hin⟩))
    exact ⟨hnode, hcountable node hnode⟩
  obtain ⟨swept, later, changed, hsweep⟩ := exists_sweep_eq_ok (k := k) hreads hnodes hsized
  obtain ⟨_, _, hbefore, hafter, hchanged⟩ :=
    sweep_eq_ok hreads (List.nodup_flatMap.mp hnodup).2 hsweep hsize
  rw [foldl_stepLabels_eq hcover hsize, (sweepLabels_eq_self_iff hcover).mpr hstable] at hafter
  have hsame : changed = false := by
    rw [← Bool.not_eq_true, hchanged, hafter]
    rintro ⟨range, _, hdiffers⟩
    exact hdiffers fun _ _ ↦ rfl
  exact ⟨swept, later, hsame ▸ hsweep, hbefore, hafter⟩

/-- The labels of a run that converges are stable: a node with relationships has the label that wins
their votes at these labels, and any other node has its initial label. In a further iteration from
these labels no step fails, no label changes and no change is reported, however the nodes are split
between the steps. -/
theorem converged_labels_are_stable {propagation after : LabelPropagation} {stops : Nat → Bool}
    (h : propagation.run stops = (after, .ok ())) (hconverged : after.didConverge = true) :
    let view := propagation.view
    ∃ nodeWeights initial,
      propagation.weightKey.mapM (view.columnFor .nodeWeight) = .ok nodeWeights ∧
      propagation.initialLabels = .ok initial ∧
      after.labels.size = view.nodeCount ∧
      (∀ node < view.nodeCount,
        (view.votes nodeWeights node).map Prod.fst = view.targets node ∧
        (∀ target ∈ view.targets node, target < view.nodeCount) ∧
        (view.targets node ≠ [] → ∀ current, after.labels[node]? =
          some ((tallyAt after.labels (view.votes nodeWeights node)).winner current)) ∧
        (view.targets node = [] → after.labels[node]? = initial[node]?)) ∧
      ∀ (steps : List PropagationStep) (k : Nat) (world : PropagationWorld),
        (∀ step ∈ steps, step.Reads view nodeWeights) →
        (steps.flatMap (·.range.nodes)).Perm (List.range view.nodeCount) →
        world.buffers.labels (.before k) = after.labels →
        (world.buffers.labels (.after k)).size = view.nodeCount →
        ∃ swept later,
          PropagationStep.computation.sweep k steps world = (swept, later, .ok false) ∧
          later.buffers.labels (.before k) = after.labels ∧
          later.buffers.labels (.after k) = after.labels := by
  intro view
  obtain ⟨nodeWeights, initial, ranges, hweights, hinitial, hsplit, hlabels, hfixed, hcountable⟩ :=
    LabelPropagation.exists_iterate_of_run h
  obtain ⟨hpositive, hsame⟩ := hfixed hconverged
  replace hcountable := hcountable (Nat.ne_of_gt hpositive)
  have hsize : after.labels.size = view.nodeCount := by
    rw [hlabels, size_iterate_sweepLabels, LabelPropagation.size_initialLabels hinitial]
  let sweep := sweepLabels (view.votes nodeWeights) ranges
  have hkept : sweep after.labels = after.labels := by
    have hlast : after.iterations - 1 + 1 = after.iterations := Nat.sub_add_cancel hpositive
    have hnext := Function.iterate_succ_apply' sweep (after.iterations - 1) initial
    rw [Nat.succ_eq_add_one, hlast] at hnext
    calc
      sweep after.labels = sweep (sweep^[after.iterations - 1] initial) :=
        congrArg sweep (hlabels.trans hsame)
      _ = sweep^[after.iterations] initial := hnext.symm
      _ = after.labels := hlabels.symm
  have hstable : Stable (view.votes nodeWeights) after.labels :=
    (sweepLabels_eq_self_iff (hsize ▸ .of_eq hsplit)).mp hkept
  refine ⟨nodeWeights, initial, hweights, hinitial, hsize, fun node hnode ↦ ?_, ?_⟩
  · have htargets := (hcountable node hnode).map_fst_votes
    have hlabel := getElem?_eq_some_getD (hsize ▸ hnode : node < after.labels.size)
    refine ⟨htargets, fun target htarget ↦ ?_, fun hsome current ↦ ?_, fun hnone ↦ ?_⟩
    · rw [← htargets, View.votes, List.map_map] at htarget
      obtain ⟨pair, hpair, rfl⟩ := List.mem_map.mp htarget
      exact (hcountable node hnode).target_lt pair hpair
    · have hvotes : view.votes nodeWeights node ≠ [] :=
        fun hnil ↦ hsome (htargets.symm.trans (congrArg _ hnil))
      rw [VoteTally.winner_congr (tallyAt_ne_nil hvotes) current (after.labels.getD node 0),
        hstable node (hsize ▸ hnode)]
      exact hlabel
    · have hvotes := List.map_eq_nil_iff.mp (htargets.trans hnone)
      rw [hlabels]
      exact getElem?_iterate_sweepLabels_of_votes_eq_nil hvotes _
  · intro steps k world hreads hcover hold hsizeAfter
    have hsized : world.buffers.Sized view.nodeCount :=
      LabelBuffers.sized_of_size_eq (hold ▸ hsize) hsizeAfter
    rw [← hold] at hstable ⊢
    exact PropagationStep.sweep_of_stable hreads hcover hcountable hsized hstable

/-- Two neighbours in one range, of which the first one adopts the label of the second one. -/
def agreeingNeighbours : LabelPropagation := { neighbours with concurrency := 1 }

/-- The neighbours keep their label when each of them is swept by a step of its own, the second one
before the first one. -/
theorem agreeing_neighbours_are_stable :
    (agreeingNeighbours.run (8 ≤ ·)).2 = .ok () ∧
      (agreeingNeighbours.run (8 ≤ ·)).1.didConverge = true ∧
      let steps : List PropagationStep :=
        [⟨agreeingNeighbours.view, ⟨1, 2⟩, none⟩, ⟨agreeingNeighbours.view, ⟨0, 1⟩, none⟩]
      ∃ swept later, PropagationStep.computation.sweep 0 steps ⟨⟨#[1, 1], #[0, 0]⟩, false⟩ =
        (swept, later, .ok false) ∧ later.buffers.labels .second = #[1, 1] := by
  have hpair (run : LabelPropagation × Except AlgorithmError Unit) (h : run.2 = .ok ()) :
      run = (run.1, .ok ()) := Prod.ext rfl h
  have hsuccess : (agreeingNeighbours.run (8 ≤ ·)).2 = .ok () := by decide +kernel
  have hconverged : (agreeingNeighbours.run (8 ≤ ·)).1.didConverge = true := by decide +kernel
  have hlabels : (agreeingNeighbours.run (8 ≤ ·)).1.labels = #[1, 1] := by decide +kernel
  refine ⟨hsuccess, hconverged, ?_⟩
  obtain ⟨nodeWeights, initial, hweights, _, _, _, hsweeps⟩ :=
    converged_labels_are_stable (hpair _ hsuccess) hconverged
  obtain rfl : none = nodeWeights := Except.ok.inj hweights
  rw [hlabels] at hsweeps
  obtain ⟨swept, later, hsweep, _, hafter⟩ := hsweeps
    [⟨agreeingNeighbours.view, ⟨1, 2⟩, none⟩, ⟨agreeingNeighbours.view, ⟨0, 1⟩, none⟩] 0
    ⟨⟨#[1, 1], #[0, 0]⟩, false⟩ (by simpa using ⟨⟨rfl, rfl⟩, ⟨rfl, rfl⟩⟩) (by decide) rfl rfl
  exact ⟨swept, later, hsweep, hafter⟩

end PackedGraph
