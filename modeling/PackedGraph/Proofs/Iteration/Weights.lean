import Mathlib
import PackedGraph.Proofs.Iteration.Partition
import PackedGraph.Proofs.View.Scans

/-!
# Partitions by weight

Ranges that are closed as soon as they are heavy enough are not heavier than the target by more than
their last node. All but the last one are as heavy as the target, so there cannot be more of them
than the target was computed for.
-/

namespace PackedGraph

variable {weight : Nat → Nat} {target start node stop : Nat} {ranges : List NodeRange}

namespace NodeRange

/-- The nodes of a range weigh as much together. -/
def weigh (weight : Nat → Nat) (range : NodeRange) : Nat := (range.nodes.map weight).sum

theorem weigh_self (weight : Nat → Nat) (node : Nat) : weigh weight ⟨node, node⟩ = 0 := by
  rw [weigh, nodes, size, Nat.sub_self]
  rfl

theorem weigh_append (hstart : start ≤ node) (hstop : node ≤ stop) :
    weigh weight ⟨start, stop⟩ = weigh weight ⟨start, node⟩ + weigh weight ⟨node, stop⟩ := by
  have hnode : start + (node - start) = node := Nat.add_sub_of_le hstart
  have hsize : stop - start = node - start + (stop - node) := by omega
  simp only [weigh, nodes, size]
  rw [← List.sum_append, ← List.map_append, hsize, ← List.range'_append_1, hnode]

theorem weigh_succ (weight : Nat → Nat) (hstart : start ≤ node) :
    weigh weight ⟨start, node + 1⟩ = weigh weight ⟨start, node⟩ + weight node := by
  have hsize : node + 1 - node = 1 := Nat.add_sub_cancel_left node 1
  rw [weigh_append hstart (Nat.le_succ node)]
  simp only [weigh, nodes, size, hsize, List.range'_one, List.map_singleton, List.sum_singleton]

/-- Ranges that follow each other from one node up to another, none of which is empty. -/
def Cover : Nat → List NodeRange → Nat → Prop
  | start, [], stop => start = stop
  | start, range :: ranges, stop =>
    range.start = start ∧ range.start < range.stop ∧ Cover range.stop ranges stop

theorem Cover.le (h : Cover start ranges stop) : start ≤ stop := by
  induction ranges generalizing start with
  | nil => exact h.le
  | cons range ranges ih =>
    obtain ⟨rfl, hlt, hrest⟩ := h
    exact hlt.le.trans (ih hrest)

/-- Ranges that cover some nodes weigh as much as these nodes. -/
theorem Cover.sum_weigh (h : Cover start ranges stop) (weight : Nat → Nat) :
    (ranges.map (weigh weight)).sum = weigh weight ⟨start, stop⟩ := by
  induction ranges generalizing start with
  | nil =>
    obtain rfl : start = stop := h
    rw [weigh_self]
    rfl
  | cons range ranges ih =>
    obtain ⟨rfl, hlt, hrest⟩ := h
    rw [List.map_cons, List.sum_cons, ih hrest, weigh_append hlt.le hrest.le]

theorem weigh_pos (hpos : ∀ node, 0 < weight node) (hlt : start < stop) :
    0 < weigh weight ⟨start, stop⟩ := by
  obtain ⟨last, rfl⟩ := Nat.exists_eq_add_one_of_ne_zero (Nat.ne_zero_of_lt hlt)
  rw [weigh_succ weight (Nat.le_of_lt_succ hlt)]
  exact Nat.add_pos_right _ (hpos last)

theorem Cover.lt_of_mem (h : Cover start ranges stop) :
    ∀ range ∈ ranges, range.start < range.stop := by
  induction ranges generalizing start with
  | nil => exact nofun
  | cons range ranges ih =>
    obtain ⟨_, hlt, hrest⟩ := h
    exact List.forall_mem_cons.mpr ⟨hlt, ih hrest⟩

/-- All ranges but the last one reach the target, and every range stays below the target without its
last node. -/
structure IsBalanced (weight : Nat → Nat) (target : Nat) (ranges : List NodeRange) : Prop where
  target_le : ∀ range ∈ ranges.dropLast, target ≤ range.weigh weight
  weigh_lt : ∀ range ∈ ranges, range.weigh weight < target + weight (range.stop - 1)

/-- Balanced ranges that cover some nodes are not more than the target was computed for. -/
theorem IsBalanced.length_le (h : IsBalanced weight target ranges)
    (hcover : Cover start ranges stop) (hpos : ∀ node, 0 < weight node) {parts : Nat}
    (htotal : weigh weight ⟨start, stop⟩ ≤ parts * target) : ranges.length ≤ parts := by
  rcases List.eq_nil_or_concat' ranges with rfl | ⟨earlier, last, rfl⟩
  · exact Nat.zero_le parts
  have hfull : ∀ range ∈ earlier, target ≤ range.weigh weight := by
    intro range hrange
    apply h.target_le
    rwa [List.dropLast_concat]
  have hearlier : earlier.length * target ≤ (earlier.map (weigh weight)).sum := by
    have hsum := List.card_nsmul_le_sum (earlier.map (weigh weight)) target
      (List.forall_mem_map.mpr hfull)
    rwa [List.length_map, smul_eq_mul] at hsum
  have hlast : 0 < last.weigh weight :=
    weigh_pos hpos (hcover.lt_of_mem last (List.mem_append_right _ List.mem_cons_self))
  have hsum := hcover.sum_weigh weight
  rw [List.map_append, List.sum_append, List.map_singleton, List.sum_singleton] at hsum
  have hlt : earlier.length * target < parts * target := by omega
  rw [List.length_append, List.length_singleton]
  exact lt_of_mul_lt_mul_right hlt (Nat.zero_le target)

end NodeRange

open NodeRange

theorem cover_cutByWeight (hstart : start ≤ node) (target weight : Nat) (weights : List Nat) :
    Cover start (cutByWeight target start node weight weights) (node + weights.length) := by
  induction weights generalizing start node weight with
  | nil =>
    unfold cutByWeight
    split_ifs with hopen
    · exact ⟨rfl, hopen, rfl⟩
    · exact le_antisymm hstart (not_lt.mp hopen)
  | cons w weights ih =>
    have hlength : node + (w :: weights).length = node + 1 + weights.length := by
      rw [List.length_cons, Nat.add_right_comm, Nat.add_assoc]
    unfold cutByWeight
    rw [hlength]
    split_ifs with hclosed
    · exact ⟨rfl, Nat.lt_succ_of_le hstart, ih le_rfl _⟩
    · exact ih (Nat.le_succ_of_le hstart) _

theorem mem_dropLast_cons {α : Type} {a first : α} {l : List α} (h : a ∈ (first :: l).dropLast) :
    a = first ∨ a ∈ l.dropLast := by
  cases l with
  | nil => exact absurd h List.not_mem_nil
  | cons second l => exact List.mem_cons.mp h

/-- The ranges are balanced when the open one has not reached the target. -/
theorem isBalanced_cutByWeight (hstart : start ≤ node) (hopen : weigh weight ⟨start, node⟩ < target)
    (count : Nat) :
    IsBalanced weight target
      (cutByWeight target start node (weigh weight ⟨start, node⟩)
        ((List.range' node count).map weight)) := by
  induction count generalizing start node with
  | zero =>
    rw [List.range'_zero, List.map_nil, cutByWeight]
    split_ifs
    · refine ⟨nofun, fun range hrange ↦ ?_⟩
      rw [List.mem_singleton.mp hrange]
      exact Nat.lt_add_right _ hopen
    · exact ⟨nofun, nofun⟩
  | succ count ih =>
    have hweigh := weigh_succ weight hstart
    rw [List.range'_succ, List.map_cons, cutByWeight, ← hweigh]
    split_ifs with hclosed
    · have hempty : weigh weight ⟨node + 1, node + 1⟩ < target := by
        rw [weigh_self]
        exact Nat.zero_lt_of_lt hopen
      have hrest := ih le_rfl hempty
      rw [weigh_self] at hrest
      constructor
      · intro range hrange
        rcases mem_dropLast_cons hrange with rfl | hlater
        · exact hclosed
        · exact hrest.target_le range hlater
      · rw [List.forall_mem_cons]
        refine ⟨?_, hrest.weigh_lt⟩
        rw [hweigh]
        exact Nat.add_lt_add_right hopen _
    · exact ih (Nat.le_succ_of_le hstart) (not_le.mp hclosed)

/-- A view counts the relationships of all nodes together as many as their degrees. -/
structure View.CountsDegrees (view : View) (degree : Nat → Nat) : Prop where
  degree_eq : ∀ node < view.nodeCount, view.degree node = .ok (degree node)
  relationshipCount_eq : view.relationshipCount = ((List.range view.nodeCount).map degree).sum

theorem View.Contract.countsDegrees {view : View} (h : view.Contract) :
    view.CountsDegrees fun node ↦ (view.targets node).length :=
  ⟨h.degree_eq, h.relationshipCount_eq⟩

/-- The number of batches is brought between one and the number of nodes. -/
theorem clampBatches_eq {nodeCount : Nat} (hnodes : 0 < nodeCount) (batches : Nat) :
    clampBatches batches nodeCount = max 1 (min batches nodeCount) := by
  unfold clampBatches
  omega

theorem View.CountsDegrees.degreePartition_eq {view : View} {degree : Nat → Nat}
    (h : view.CountsDegrees degree) (hnodes : 0 < view.nodeCount) (batches : Nat) :
    let weight node := degree node + 1
    let total := ((List.range view.nodeCount).map weight).sum
    degreePartition view batches = .ok (cutByWeight
      (total ⌈/⌉ max 1 (min batches view.nodeCount)) 0 0 0
      ((List.range view.nodeCount).map weight)) := by
  intro weight total
  have htotal : view.relationshipCount + view.nodeCount = total := by
    rw [h.relationshipCount_eq]
    simp only [total, weight]
    rw [List.sum_map_add, List.map_const', List.sum_replicate, List.length_range, smul_eq_mul,
      mul_one]
  have hweights : ((List.range view.nodeCount).mapM fun node ↦
      return (← view.degree node) + 1) = .ok ((List.range view.nodeCount).map weight) := by
    refine mapM_eq_ok fun node hnode ↦ ?_
    rw [h.degree_eq node (List.mem_range.mp hnode)]
    rfl
  rw [degreePartition, if_neg hnodes.ne', hweights, htotal, clampBatches_eq hnodes, divCeil,
    Nat.ceilDiv_eq_add_pred_div]
  rfl

/-- The degrees of a view of a built graph add up to the number of its relationships. The nodes of
such a view are split into ranges that cover them in order, of which there are at most as many as
asked for. A node weighs one more than its degree. All ranges but the last one weigh at least their
share, and no range exceeds it by as much as its last node weighs. -/
theorem degree_partition_is_balanced (view : View) :
    (view.OfBuiltGraph → ∃ degree, view.CountsDegrees degree) ∧
    ∀ degree, view.CountsDegrees degree → ∀ batches, ∃ ranges,
      degreePartition view batches = .ok ranges ∧
      (view.nodeCount = 0 → ranges = []) ∧
      (0 < view.nodeCount →
        let parts := max 1 (min batches view.nodeCount)
        let weight node := degree node + 1
        let target := ((List.range view.nodeCount).map weight).sum ⌈/⌉ parts
        NodeRange.Cover 0 ranges view.nodeCount ∧ ranges.length ≤ parts ∧
          NodeRange.IsBalanced weight target ranges) := by
  refine ⟨fun h ↦ ⟨_, h.contract.countsDegrees⟩, fun degree h batches ↦ ?_⟩
  rcases Nat.eq_zero_or_pos view.nodeCount with hzero | hnodes
  · refine ⟨[], ?_, fun _ ↦ rfl, fun hpos ↦ absurd hzero hpos.ne'⟩
    rw [degreePartition, if_pos hzero]
  refine ⟨_, h.degreePartition_eq hnodes batches, fun hzero ↦ absurd hzero hnodes.ne', fun _ ↦ ?_⟩
  intro parts weight target
  have hparts : 0 < parts := Nat.lt_of_lt_of_le Nat.zero_lt_one (Nat.le_max_left _ _)
  have htotal : weigh weight ⟨0, view.nodeCount⟩ =
      ((List.range view.nodeCount).map weight).sum := by
    rw [List.range_eq_range']
    rfl
  have hshare : weigh weight ⟨0, view.nodeCount⟩ ≤ parts * target := by
    rw [htotal]
    exact le_smul_ceilDiv hparts
  have hpos : ∀ node, 0 < weight node := fun node ↦ Nat.succ_pos _
  have htarget : weigh weight ⟨0, 0⟩ < target := by
    rw [weigh_self]
    have hweighs := weigh_pos hpos hnodes
    exact Nat.pos_of_mul_pos_left (hweighs.trans_le hshare)
  have hcover := cover_cutByWeight (Nat.le_refl 0) target 0 ((List.range view.nodeCount).map weight)
  have hbalanced := isBalanced_cutByWeight (Nat.le_refl 0) htarget view.nodeCount
  rw [List.length_map, List.length_range, Nat.zero_add] at hcover
  rw [weigh_self, ← List.range_eq_range'] at hbalanced
  exact ⟨hcover, hbalanced.length_le hcover hpos hshare, hbalanced⟩

theorem countsDegrees_keptCrossing {packed : PackedView} (hcontract : (View.packed packed).Contract)
    (hshows : packed.Shows keptCrossing (some 0)) :
    (View.packed packed).nodeCount = 2 ∧
      (View.packed packed).CountsDegrees fun node ↦ 3 - 2 * node := by
  have hcount : (View.packed packed).nodeCount = 2 := hshows.nodeCount_eq
  have htargets (node : Nat) (hnode : node < 2) :
      ((View.packed packed).targets node).length = 3 - 2 * node := by
    have hreading : (View.packed packed).targets node = keptCrossing.targets node :=
      congrArg Reading.elements (hshows.reading_eq hnode)
    rw [hreading, GraphBuilder.targets]
    obtain rfl | rfl : node = 0 ∨ node = 1 := by omega
    · rw [runs_keptCrossing.1]; rfl
    · rw [runs_keptCrossing.2]; rfl
  obtain ⟨hdegree, hrelationships⟩ := hcontract.countsDegrees
  refine ⟨hcount, fun node hnode ↦ ?_, ?_⟩
  · rw [hdegree node hnode, htargets node (hcount ▸ hnode)]
  · rw [hrelationships]
    refine congrArg List.sum (List.map_congr_left fun node hnode ↦ ?_)
    exact htargets node (hcount ▸ List.mem_range.mp hnode)

theorem partition_by_degree_cuts_kept_crossing_in_two :
    ∃ view : View, view.OfBuiltGraph ∧ view.nodeCount = 2 ∧
      (view.CountsDegrees fun node ↦ 3 - 2 * node) ∧
      degreePartition view 2 = .ok [⟨0, 1⟩, ⟨1, 2⟩] ∧
      NodeRange.IsBalanced (fun node ↦ 3 - 2 * node + 1) 3 [⟨0, 1⟩, ⟨1, 2⟩] := by
  obtain ⟨packed, hbuilt, hshows⟩ := exists_view_of_keptCrossing
  obtain ⟨hcount, hdegrees⟩ := countsDegrees_keptCrossing hbuilt.contract hshows
  have hnodes : 0 < (View.packed packed).nodeCount := hcount ▸ Nat.two_pos
  have hcut := hdegrees.degreePartition_eq hnodes 2
  obtain ⟨ranges, hranges, _, hbalanced⟩ :=
    (degree_partition_is_balanced (.packed packed)).2 _ hdegrees 2
  obtain ⟨_, _, hshares⟩ := hbalanced hnodes
  rw [hcount] at hcut hshares
  obtain rfl : ranges = [⟨0, 1⟩, ⟨1, 2⟩] := Except.ok.inj (hranges.symm.trans hcut)
  exact ⟨_, hbuilt, hcount, hdegrees, hranges, hshares⟩

end PackedGraph
