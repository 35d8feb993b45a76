import Mathlib
import PackedGraph.Proofs.Community.Propagation
import PackedGraph.Proofs.Iteration.Partition
import PackedGraph.Proofs.View.Reading

/-!
# Sweeps of labels

A sweep gives each node of each range the label that wins its votes. A target of the same range
votes with its new label, and any other one with its old label. The steps of an iteration do
together what a sweep does, if the buffer that they read holds the old labels: each of them copies
the labels of its range, and adopts the winners of its nodes one after another.
-/

namespace PackedGraph

theorem setIfInBounds_eq_self {labels : Array UInt64} {cell : Nat} {label : UInt64}
    (h : labels[cell]? = some label) : labels.setIfInBounds cell label = labels := by
  apply Array.ext_getElem?
  intro i
  rw [getElem?_setIfInBounds_eq]
  by_cases hi : i = cell
  · rw [if_pos hi, hi, h, Option.map_some]
  · rw [if_neg hi]

theorem getElem?_eq_some_getD {labels : Array UInt64} {cell : Nat} (h : cell < labels.size) :
    labels[cell]? = some (labels.getD cell 0) := by
  rw [Array.getD_eq_getD_getElem?, Array.getElem?_eq_getElem h, Option.getD_some]

/-! ## Sweeps -/

/-- The label with which a target votes for a node of a range. -/
def NodeRange.labelSeen (range : NodeRange) (old labels : Array UInt64) (target : Nat) : UInt64 :=
  if range.contains target then labels.getD target 0 else old.getD target 0

/-- The tally of votes, each of which is a target with a weight. -/
def NodeRange.tally (range : NodeRange) (old labels : Array UInt64) (votes : List (Nat × Float)) :
    VoteTally :=
  votes.foldl (fun tally vote ↦ tally.vote (range.labelSeen old labels vote.1) vote.2) []

section Sweep

variable (votes : Nat → List (Nat × Float))

/-- Gives a node of a range the label that wins its votes. -/
def adopt (range : NodeRange) (old labels : Array UInt64) (node : Nat) : Array UInt64 :=
  let winner := (range.tally old labels (votes node)).winner (labels.getD node 0)
  labels.setIfInBounds node winner

/-- Gives the nodes of a range the labels that win their votes, in increasing order. -/
def sweepRange (old labels : Array UInt64) (range : NodeRange) : Array UInt64 :=
  range.nodes.foldl (adopt votes range old) labels

/-- The labels after the nodes of all ranges have adopted the labels that win their votes. -/
def sweepLabels (ranges : List NodeRange) (labels : Array UInt64) : Array UInt64 :=
  ranges.foldl (sweepRange votes labels) labels

variable {votes} {range : NodeRange} {old labels others : Array UInt64}

theorem getElem?_adopt_of_ne {node cell : Nat} (hne : cell ≠ node) :
    (adopt votes range old labels node)[cell]? = labels[cell]? :=
  Array.getElem?_setIfInBounds_ne hne.symm

/-- Two labellings agree on the nodes of a range. -/
def NodeRange.Agree (range : NodeRange) (labels others : Array UInt64) : Prop :=
  ∀ cell, range.contains cell → labels[cell]? = others[cell]?

theorem adopt_congr (hagree : range.Agree labels others) {node : Nat}
    (hnode : range.contains node) :
    range.Agree (adopt votes range old labels node) (adopt votes range old others node) := by
  have hgetD {cell : Nat} (hcell : range.contains cell) :
      labels.getD cell 0 = others.getD cell 0 := by
    rw [Array.getD_eq_getD_getElem?, Array.getD_eq_getD_getElem?, hagree cell hcell]
  have hseen : range.labelSeen old labels = range.labelSeen old others := by
    funext target
    unfold NodeRange.labelSeen
    split_ifs with htarget
    · exact hgetD htarget
    · rfl
  intro cell hcell
  unfold adopt NodeRange.tally
  rw [hseen, hgetD hnode, getElem?_setIfInBounds_eq, getElem?_setIfInBounds_eq, hagree cell hcell,
    hagree node hnode]

theorem foldl_adopt_congr {nodes : List Nat} (hnodes : ∀ node ∈ nodes, range.contains node)
    (hagree : range.Agree labels others) :
    range.Agree (nodes.foldl (adopt votes range old) labels)
      (nodes.foldl (adopt votes range old) others) := by
  induction nodes generalizing labels others with
  | nil => exact hagree
  | cons node nodes ih =>
    have hrest : ∀ other ∈ nodes, range.contains other :=
      fun other hother ↦ hnodes other (List.mem_cons_of_mem _ hother)
    exact ih hrest (adopt_congr hagree (hnodes node List.mem_cons_self))

theorem getElem?_foldl_adopt_of_notMem {nodes : List Nat} {cell : Nat} (hcell : cell ∉ nodes) :
    (nodes.foldl (adopt votes range old) labels)[cell]? = labels[cell]? := by
  induction nodes generalizing labels with
  | nil => rfl
  | cons node nodes ih =>
    rw [List.mem_cons, not_or] at hcell
    rw [List.foldl_cons, ih hcell.2, getElem?_adopt_of_ne hcell.1]

/-- The labels stay the same only if each node keeps its label. -/
theorem foldl_adopt_eq_self_iff {node : Nat} {nodes : List Nat} (hnode : node ∉ nodes) :
    nodes.foldl (adopt votes range old) (adopt votes range old labels node) = labels ↔
      adopt votes range old labels node = labels ∧
        nodes.foldl (adopt votes range old) (adopt votes range old labels node) =
          adopt votes range old labels node := by
  constructor
  · intro heq
    have hkept : adopt votes range old labels node = labels := by
      apply Array.ext_getElem?
      intro cell
      by_cases hcell : cell = node
      · rw [hcell, ← getElem?_foldl_adopt_of_notMem hnode, heq]
      · exact getElem?_adopt_of_ne hcell
    exact ⟨hkept, heq.trans hkept.symm⟩
  · rintro ⟨hkept, heq⟩
    exact heq.trans hkept

theorem size_foldl_adopt (nodes : List Nat) :
    (nodes.foldl (adopt votes range old) labels).size = labels.size := by
  induction nodes generalizing labels with
  | nil => rfl
  | cons node nodes ih => rw [List.foldl_cons, ih, adopt, Array.size_setIfInBounds]

/-- The new labels of a range depend on no other new labels. -/
theorem sweepRange_congr (hagree : range.Agree labels others) :
    range.Agree (sweepRange votes old labels range) (sweepRange votes old others range) :=
  foldl_adopt_congr (fun node hnode ↦ (range.mem_nodes_iff node).mp hnode) hagree

theorem getElem?_sweepRange_of_notMem {cell : Nat} (hcell : cell ∉ range.nodes) :
    (sweepRange votes old labels range)[cell]? = labels[cell]? :=
  getElem?_foldl_adopt_of_notMem hcell

theorem size_sweepRange : (sweepRange votes old labels range).size = labels.size :=
  size_foldl_adopt range.nodes

/-- A range whose labels agree with the old ones keeps all labels only if they still agree. -/
theorem sweepRange_eq_self_iff (hagree : range.Agree labels old) :
    sweepRange votes old labels range = labels ↔
      range.Agree (sweepRange votes old labels range) old := by
  constructor
  · intro heq
    rw [heq]
    exact hagree
  · intro hsame
    apply Array.ext_getElem?
    intro cell
    by_cases hcell : cell ∈ range.nodes
    · have hin := (range.mem_nodes_iff cell).mp hcell
      rw [hsame cell hin, hagree cell hin]
    · exact getElem?_sweepRange_of_notMem hcell

/-! ## Steps -/

/-- Copies the label of a node. -/
def copyLabel (old labels : Array UInt64) (node : Nat) : Array UInt64 :=
  labels.setIfInBounds node (old.getD node 0)

/-- Copies the labels of a range. -/
def refreshRange (old labels : Array UInt64) (range : NodeRange) : Array UInt64 :=
  range.nodes.foldl (copyLabel old) labels

theorem size_foldl_copyLabel (nodes : List Nat) :
    (nodes.foldl (copyLabel old) labels).size = labels.size := by
  induction nodes generalizing labels with
  | nil => rfl
  | cons node nodes ih => rw [List.foldl_cons, ih, copyLabel, Array.size_setIfInBounds]

theorem getElem?_foldl_copyLabel (hsize : labels.size = old.size) (nodes : List Nat) (cell : Nat) :
    (nodes.foldl (copyLabel old) labels)[cell]? =
      if cell ∈ nodes then old[cell]? else labels[cell]? := by
  induction nodes generalizing labels with
  | nil => exact (if_neg List.not_mem_nil).symm
  | cons node nodes ih =>
    have hcopied : (copyLabel old labels node).size = old.size :=
      Array.size_setIfInBounds.trans hsize
    rw [List.foldl_cons, ih hcopied]
    by_cases hmem : cell ∈ nodes
    · rw [if_pos hmem, if_pos (List.mem_cons_of_mem _ hmem)]
    rw [if_neg hmem, copyLabel, getElem?_setIfInBounds_eq]
    by_cases hcell : cell = node
    · subst hcell
      rw [if_pos rfl, if_pos List.mem_cons_self]
      by_cases hlt : cell < old.size
      · have hin : cell < labels.size := hsize ▸ hlt
        simp [hlt, hin]
      · have hout : ¬ cell < labels.size := hsize ▸ hlt
        simp [hlt, hout]
    · have hnone : cell ∉ node :: nodes := by simp [hcell, hmem]
      rw [if_neg hcell, if_neg hnone]

/-- What the step of a range does to the buffer that an iteration writes. -/
def stepLabels (votes : Nat → List (Nat × Float)) (old labels : Array UInt64) (range : NodeRange) :
    Array UInt64 :=
  sweepRange votes old (refreshRange old labels range) range

theorem size_stepLabels : (stepLabels votes old labels range).size = labels.size :=
  size_sweepRange.trans (size_foldl_copyLabel range.nodes)

theorem refreshRange_agree (hsize : labels.size = old.size) :
    range.Agree (refreshRange old labels range) old := by
  intro cell hcell
  rw [refreshRange, getElem?_foldl_copyLabel hsize, if_pos ((range.mem_nodes_iff cell).mpr hcell)]

theorem getElem?_stepLabels_of_notMem (hsize : labels.size = old.size) {cell : Nat}
    (hcell : cell ∉ range.nodes) : (stepLabels votes old labels range)[cell]? = labels[cell]? := by
  rw [stepLabels, getElem?_sweepRange_of_notMem hcell, refreshRange,
    getElem?_foldl_copyLabel hsize, if_neg hcell]

variable {ranges : List NodeRange}

theorem size_foldl_stepLabels :
    (ranges.foldl (stepLabels votes old) labels).size = labels.size := by
  induction ranges generalizing labels with
  | nil => rfl
  | cons range ranges ih => rw [List.foldl_cons, ih, size_stepLabels]

theorem getElem?_foldl_stepLabels_of_notMem (hsize : labels.size = old.size) {cell : Nat}
    (hcell : ∀ range ∈ ranges, cell ∉ range.nodes) :
    (ranges.foldl (stepLabels votes old) labels)[cell]? = labels[cell]? := by
  induction ranges generalizing labels with
  | nil => rfl
  | cons range ranges ih =>
    have hnext : (stepLabels votes old labels range).size = old.size := size_stepLabels.trans hsize
    rw [List.foldl_cons, ih hnext fun other hother ↦ hcell other (List.mem_cons_of_mem _ hother),
      getElem?_stepLabels_of_notMem hsize (hcell range List.mem_cons_self)]

/-- The steps of other ranges leave the labels of a range alone. -/
theorem agree_foldl_stepLabels_iff (hsize : labels.size = old.size)
    (hdisjoint : ∀ other ∈ ranges, List.Disjoint range.nodes other.nodes) :
    range.Agree (ranges.foldl (stepLabels votes old) labels) others ↔
      range.Agree labels others := by
  apply forall₂_congr
  intro cell hcell
  have hout : ∀ other ∈ ranges, cell ∉ other.nodes := fun other hother hin ↦
    hdisjoint other hother ((range.mem_nodes_iff cell).mpr hcell) hin
  rw [getElem?_foldl_stepLabels_of_notMem hsize hout]

theorem size_foldl_sweepRange :
    (ranges.foldl (sweepRange votes old) labels).size = labels.size := by
  induction ranges generalizing labels with
  | nil => rfl
  | cons range ranges ih => rw [List.foldl_cons, ih, size_sweepRange]

/-- Whatever a buffer holds, the steps of disjoint ranges put the labels of a sweep into it. -/
theorem getElem?_foldl_stepLabels
    (hdisjoint : ranges.Pairwise (Function.onFun List.Disjoint NodeRange.nodes))
    (hsize : labels.size = old.size) (hfresh : ∀ range ∈ ranges, range.Agree others old)
    {cell : Nat} (hcell : (∃ range ∈ ranges, cell ∈ range.nodes) ∨ labels[cell]? = others[cell]?) :
    (ranges.foldl (stepLabels votes old) labels)[cell]? =
      (ranges.foldl (sweepRange votes old) others)[cell]? := by
  induction ranges generalizing labels others with
  | nil => exact hcell.resolve_left nofun
  | cons range ranges ih =>
    obtain ⟨hrange, hdisjoint⟩ := List.pairwise_cons.mp hdisjoint
    have hnext : (stepLabels votes old labels range).size = old.size :=
      size_stepLabels.trans hsize
    have hlater : ∀ other ∈ ranges, other.Agree (sweepRange votes old others range) old := by
      intro other hother i hi
      have hout : i ∉ range.nodes := fun hin ↦
        hrange other hother hin ((other.mem_nodes_iff i).mpr hi)
      rw [getElem?_sweepRange_of_notMem hout]
      exact hfresh other (List.mem_cons_of_mem _ hother) i hi
    rw [List.foldl_cons, List.foldl_cons]
    apply ih hdisjoint hnext hlater
    by_cases hin : cell ∈ range.nodes
    · have hsame : range.Agree (refreshRange old labels range) others := by
        intro i hi
        rw [refreshRange_agree hsize i hi, hfresh range List.mem_cons_self i hi]
      exact .inr (sweepRange_congr hsame cell ((range.mem_nodes_iff cell).mp hin))
    · rw [getElem?_stepLabels_of_notMem hsize hin, getElem?_sweepRange_of_notMem hin]
      rcases hcell with ⟨other, hother, hmem⟩ | heq
      · rcases List.mem_cons.mp hother with rfl | hother
        · exact absurd hmem hin
        · exact .inl ⟨other, hother, hmem⟩
      · exact .inr heq

/-- Labellings are equal if they agree on the ranges of a split. -/
theorem eq_of_agree (hsplit : (ranges.flatMap NodeRange.nodes).Perm (List.range others.size))
    (hsize : labels.size = others.size) (hagree : ∀ range ∈ ranges, range.Agree labels others) :
    labels = others := by
  apply Array.ext_getElem?
  intro cell
  by_cases hcell : cell < others.size
  · have hmem : cell ∈ ranges.flatMap NodeRange.nodes :=
      hsplit.mem_iff.mpr (List.mem_range.mpr hcell)
    obtain ⟨range, hrange, hin⟩ := List.mem_flatMap.mp hmem
    exact hagree range hrange cell ((range.mem_nodes_iff cell).mp hin)
  · have hout : ¬ cell < labels.size := hsize ▸ hcell
    rw [Array.getElem?_eq_none (Nat.le_of_not_lt hout),
      Array.getElem?_eq_none (Nat.le_of_not_lt hcell)]

theorem exists_not_agree_iff_ne
    (hsplit : (ranges.flatMap NodeRange.nodes).Perm (List.range others.size))
    (hsize : labels.size = others.size) :
    (∃ range ∈ ranges, ¬ range.Agree labels others) ↔ labels ≠ others := by
  constructor
  · rintro ⟨range, _, hdiffer⟩ rfl
    exact hdiffer fun cell _ ↦ rfl
  · intro hne
    by_contra hnone
    push Not at hnone
    exact hne (eq_of_agree hsplit hsize hnone)

/-- The steps of a split of all nodes do together what a sweep does. -/
theorem foldl_stepLabels_eq
    (hsplit : (ranges.flatMap NodeRange.nodes).Perm (List.range old.size))
    (hsize : labels.size = old.size) :
    ranges.foldl (stepLabels votes old) labels = sweepLabels votes ranges old := by
  have hnodup : (ranges.flatMap NodeRange.nodes).Nodup := hsplit.nodup_iff.mpr List.nodup_range
  have hdisjoint := (List.nodup_flatMap.mp hnodup).2
  have hswept : (sweepLabels votes ranges old).size = old.size := size_foldl_sweepRange
  apply eq_of_agree (hswept ▸ hsplit) (size_foldl_stepLabels.trans (hsize.trans hswept.symm))
  intro range hrange cell hcell
  exact getElem?_foldl_stepLabels hdisjoint hsize (fun _ _ _ _ ↦ rfl)
    (.inl ⟨range, hrange, (range.mem_nodes_iff cell).mpr hcell⟩)

/-- What is true of the old labels and kept by each adoption is true after a sweep. -/
theorem sweepLabels_induction {motive : Array UInt64 → Prop} (hold : motive old)
    (hadopt : ∀ range labels node, motive labels → motive (adopt votes range old labels node)) :
    motive (sweepLabels votes ranges old) := by
  apply List.foldlRecOn ranges _ hold
  intro labels hlabels range _
  apply List.foldlRecOn range.nodes _ hlabels
  intro labels hlabels node _
  exact hadopt range labels node hlabels

theorem size_iterate_sweepLabels (k : Nat) :
    ((sweepLabels votes ranges)^[k] labels).size = labels.size := by
  induction k with
  | zero => rfl
  | succ k ih => rw [Function.iterate_succ_apply', sweepLabels, size_foldl_sweepRange, ih]

end Sweep

end PackedGraph
