import Mathlib
import PackedGraph.Proofs.Iteration.Weights

/-!
# Ranges of the same size

Nodes that are split without regard to their degrees are split into ranges of one size, which is
the share of a batch unless that is too small. The last range takes what is left, so that there are
no more ranges than batches.
-/

namespace PackedGraph

namespace NodeRange

variable {range : NodeRange} {size : Nat}

theorem length_split (range : NodeRange) (size : Nat) :
    (range.split size).length = range.size ⌈/⌉ size := by
  rw [split_eq, List.length_map, List.length_range, Nat.ceilDiv_eq_add_pred_div]

/-- The pieces are those that start inside of the range. -/
theorem lt_length_split_iff (hsize : 0 < size) {i : Nat} :
    i < (range.split size).length ↔ i * size < range.size := by
  rw [length_split, ← not_le, ceilDiv_le_iff_le_smul hsize, smul_eq_mul, Nat.mul_comm, not_le]

/-- Pieces that start inside of a range follow each other up to its end. -/
theorem cover_pieces (hsize : 0 < size) (first pieces : Nat)
    (hinside : ∀ i < first + pieces, i * size < range.size) :
    Cover (min range.stop (range.start + first * size))
      ((List.range' first pieces).map (range.piece size))
      (min range.stop (range.start + (first + pieces) * size)) := by
  induction pieces generalizing first with
  | zero => rfl
  | succ pieces ih =>
    have hfirst : first * size < range.size := hinside first (by omega)
    have hnext : first + 1 + pieces = first + (pieces + 1) := by omega
    have hrest := ih (first + 1) fun i hi ↦ hinside i (hnext ▸ hi)
    rw [hnext, Nat.succ_mul, ← Nat.add_assoc] at hrest
    simp only [NodeRange.size] at hfirst
    rw [List.range'_succ, List.map_cons]
    refine ⟨?_, ?_, hrest⟩ <;> simp only [piece] <;> omega

/-- The pieces of a range cover it. -/
theorem cover_split (hrange : range.start ≤ range.stop) (hsize : 0 < size) :
    Cover range.start (range.split size) range.stop := by
  have hinside : ∀ i < 0 + (range.split size).length, i * size < range.size := by
    intro i hi
    rw [Nat.zero_add] at hi
    exact (lt_length_split_iff hsize).mp hi
  have hpieces := cover_pieces hsize 0 (range.split size).length hinside
  have hend : range.size ≤ (range.split size).length * size :=
    not_lt.mp fun h ↦ lt_irrefl _ ((lt_length_split_iff hsize).mpr h)
  have hsplit : (List.range' 0 (range.split size).length).map (range.piece size) =
      range.split size := by
    rw [← List.range_eq_range', split_eq, List.length_map, List.length_range]
  have hstart : min range.stop (range.start + 0 * size) = range.start := by omega
  have hstop : min range.stop (range.start + (0 + (range.split size).length) * size) =
      range.stop := by
    rw [Nat.zero_add]
    simp only [NodeRange.size] at hend
    omega
  rwa [hsplit, hstart, hstop] at hpieces

/-- All pieces but the last one have the full size. -/
theorem size_eq_of_mem_dropLast_split (hsize : 0 < size) {part : NodeRange}
    (h : part ∈ (range.split size).dropLast) : part.size = size := by
  obtain ⟨i, hi, rfl⟩ := List.mem_iff_getElem.mp h
  rw [List.length_dropLast] at hi
  have hnext : (i + 1) * size < range.size := (lt_length_split_iff hsize).mp (by omega)
  rw [Nat.succ_mul] at hnext
  simp only [split_eq, List.getElem_dropLast, List.getElem_map, List.getElem_range, size_piece]
  omega

end NodeRange

/-- The size of the ranges of a partition, which is the share of a batch unless a larger one is
asked for. -/
def shareOf (nodeCount batches minSize : Nat) : Nat :=
  max (max (nodeCount ⌈/⌉ clampBatches batches nodeCount) minSize) 1

variable {nodeCount batches minSize : Nat}

theorem shareOf_pos : 0 < shareOf nodeCount batches minSize :=
  Nat.lt_of_lt_of_le Nat.zero_lt_one (Nat.le_max_right _ _)

theorem rangePartition_eq (nodeCount batches minSize : Nat) :
    rangePartition nodeCount batches minSize =
      NodeRange.split ⟨0, nodeCount⟩ (shareOf nodeCount batches minSize) := by
  unfold rangePartition
  split_ifs with hzero
  · have hnone : (NodeRange.split ⟨0, nodeCount⟩
        (shareOf nodeCount batches minSize)).length = 0 := by
      rw [NodeRange.length_split, hzero]
      exact zero_ceilDiv _
    exact (List.length_eq_zero_iff.mp hnone).symm
  · rw [divCeil, ← Nat.ceilDiv_eq_add_pred_div]
    rfl

theorem clampBatches_pos (hnodes : 0 < nodeCount) : 0 < clampBatches batches nodeCount := by
  rw [clampBatches_eq hnodes]
  exact Nat.lt_of_lt_of_le Nat.zero_lt_one (Nat.le_max_left _ _)

/-- Shares of this size for all batches are enough for all nodes. -/
theorem le_mul_shareOf (hnodes : 0 < nodeCount) :
    nodeCount ≤ max 1 batches * shareOf nodeCount batches minSize := by
  calc
    nodeCount ≤ clampBatches batches nodeCount *
        (nodeCount ⌈/⌉ clampBatches batches nodeCount) := le_smul_ceilDiv (clampBatches_pos hnodes)
    _ ≤ max 1 batches * shareOf nodeCount batches minSize := by
      apply Nat.mul_le_mul
      · rw [clampBatches_eq hnodes]
        exact max_le_max_left 1 (Nat.min_le_left _ _)
      · exact (Nat.le_max_left _ _).trans (Nat.le_max_left _ _)

theorem length_rangePartition_le (nodeCount batches minSize : Nat) :
    (rangePartition nodeCount batches minSize).length ≤ max 1 batches := by
  rw [rangePartition_eq, NodeRange.length_split, ceilDiv_le_iff_le_smul shareOf_pos, smul_eq_mul,
    Nat.mul_comm]
  rcases Nat.eq_zero_or_pos nodeCount with rfl | hnodes
  · exact Nat.zero_le _
  · exact le_mul_shareOf hnodes

/-- The share of a batch has 64 bits, like the numbers that it is computed from. -/
theorem shareOf_lt (hnodes : nodeCount < 2 ^ 64) (hmin : minSize < 2 ^ 64) :
    shareOf nodeCount batches minSize < 2 ^ 64 := by
  have hquotient : nodeCount ⌈/⌉ clampBatches batches nodeCount ≤ nodeCount := by
    rcases Nat.eq_zero_or_pos nodeCount with rfl | hpositive
    · exact (zero_ceilDiv _).le
    · rw [ceilDiv_le_iff_le_smul (clampBatches_pos hpositive), smul_eq_mul]
      exact Nat.le_mul_of_pos_left nodeCount (clampBatches_pos hpositive)
  unfold shareOf
  omega

/-- Before a range is cut at the number of nodes, it ends at a number of 64 bits. -/
theorem start_add_shareOf_lt (hnodes : nodeCount < 2 ^ 63) (hmin : minSize < 2 ^ 64)
    {range : NodeRange} (hrange : range ∈ rangePartition nodeCount batches minSize) :
    range.start + shareOf nodeCount batches minSize < 2 ^ 64 := by
  have hshare : shareOf nodeCount batches minSize < 2 ^ 64 :=
    shareOf_lt (hnodes.trans (by decide)) hmin
  rw [rangePartition_eq] at hrange
  obtain ⟨i, hi, rfl⟩ := List.mem_iff_getElem.mp hrange
  have hinside := (NodeRange.lt_length_split_iff shareOf_pos).mp hi
  simp only [NodeRange.size, Nat.sub_zero] at hinside
  simp only [NodeRange.split_eq, List.getElem_map, List.getElem_range, NodeRange.piece,
    Nat.zero_add]
  -- A second range starts behind a whole share, which is therefore less than half of the limit.
  cases i with
  | zero => rwa [Nat.zero_mul, Nat.zero_add]
  | succ i =>
    have hfirst : shareOf nodeCount batches minSize ≤
        (i + 1) * shareOf nodeCount batches minSize :=
      Nat.le_mul_of_pos_left _ (Nat.succ_pos i)
    omega

/-- Nodes are split into ranges that follow each other without gaps, none of which is empty. There
are at most as many as batches, or one where there are no batches. All of them have the same size,
which is not below the one asked for, except for the last one, which is not larger. With fewer than
2⁶³ nodes, no number on the way leaves the 64 bits. -/
theorem range_partition_covers_and_bounds (nodeCount batches minSize : Nat) :
    let ranges := rangePartition nodeCount batches minSize
    let size := shareOf nodeCount batches minSize
    NodeRange.Cover 0 ranges nodeCount ∧
      (nodeCount = 0 → ranges = []) ∧
      ranges.length ≤ max 1 batches ∧
      (∀ range ∈ ranges.dropLast, range.size = size ∧ minSize ≤ range.size) ∧
      (∀ range ∈ ranges, range.size ≤ size) ∧
      (nodeCount < 2 ^ 63 → minSize < 2 ^ 64 → ∀ range ∈ ranges, range.start + size < 2 ^ 64) := by
  intro ranges size
  have hranges : ranges = NodeRange.split ⟨0, nodeCount⟩ size := rangePartition_eq _ _ _
  have hmin : minSize ≤ size := (Nat.le_max_right _ _).trans (Nat.le_max_left _ _)
  refine ⟨?_, fun hzero ↦ if_pos hzero, length_rangePartition_le nodeCount batches minSize, ?_, ?_,
    fun hnodes hleast range hrange ↦ start_add_shareOf_lt hnodes hleast hrange⟩
  · have hcover := @NodeRange.cover_split ⟨0, nodeCount⟩ size (Nat.zero_le _) shareOf_pos
    rwa [hranges]
  · intro range hrange
    rw [hranges] at hrange
    have hfull := NodeRange.size_eq_of_mem_dropLast_split shareOf_pos hrange
    exact ⟨hfull, hmin.trans_eq hfull.symm⟩
  · intro range hrange
    rw [hranges] at hrange
    exact NodeRange.size_le_of_mem_split hrange

/-- A thousand and one nodes in ranges of at least 300, for 32 batches. -/
theorem range_partition_of_a_thousand_and_one :
    let ranges : List NodeRange := [⟨0, 300⟩, ⟨300, 600⟩, ⟨600, 900⟩, ⟨900, 1001⟩]
    rangePartition 1001 32 300 = ranges ∧ NodeRange.Cover 0 ranges 1001 ∧
      ∀ range ∈ ranges, range.start + shareOf 1001 32 300 < 2 ^ 64 := by
  intro ranges
  have hranges : rangePartition 1001 32 300 = ranges := by decide
  obtain ⟨hcover, _, _, _, _, hbounded⟩ := range_partition_covers_and_bounds 1001 32 300
  rw [hranges] at hcover hbounded
  exact ⟨hranges, hcover, hbounded (by decide) (by decide)⟩

end PackedGraph
