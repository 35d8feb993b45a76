import Mathlib
import PackedGraph.Iteration.Partition
import PackedGraph.Proofs.Running

/-!
# Partitions cover the nodes

The pieces of a range follow each other without gaps, and no piece is longer than the given size.
-/

namespace PackedGraph

namespace NodeRange

variable {range : NodeRange} {size : Nat}

/-- The piece of a range at a place. -/
def piece (range : NodeRange) (size i : Nat) : NodeRange :=
  ⟨range.start + i * size, min range.stop (range.start + i * size + size)⟩

theorem split_eq (range : NodeRange) (size : Nat) :
    range.split size = (List.range ((range.size + size - 1) / size)).map (range.piece size) := rfl

theorem size_piece (range : NodeRange) (size i : Nat) :
    (range.piece size i).size = min (range.size - i * size) size := by
  simp only [NodeRange.size, piece]
  omega

theorem flatMap_pieces (range : NodeRange) (size pieces : Nat) :
    ((List.range pieces).map (range.piece size)).flatMap nodes =
      List.range' range.start (min range.size (pieces * size)) := by
  induction pieces with
  | zero => rw [Nat.zero_mul, Nat.min_zero]; rfl
  | succ pieces ih =>
    rw [List.range_succ, List.map_append, List.flatMap_append, ih, List.map_singleton,
      List.flatMap_singleton, nodes, size_piece, Nat.succ_mul]
    by_cases hfull : pieces * size ≤ range.size
    · have hsum : pieces * size + min (range.size - pieces * size) size =
          min range.size (pieces * size + size) := by omega
      rw [Nat.min_eq_right hfull, ← hsum]
      exact List.range'_append_1
    · have hnone : min (range.size - pieces * size) size = 0 := by omega
      have hall : min range.size (pieces * size + size) = min range.size (pieces * size) := by
        omega
      rw [hnone, hall, List.range'_zero, List.append_nil]

/-- The pieces of a range contain its nodes in order. -/
theorem flatMap_split (range : NodeRange) (hsize : 0 < size) :
    (range.split size).flatMap nodes = range.nodes := by
  have hcover : range.size ≤ (range.size + size - 1) / size * size := by
    have hdiv := Nat.div_add_mod (range.size + size - 1) size
    have hmod := Nat.mod_lt (range.size + size - 1) hsize
    rw [Nat.mul_comm] at hdiv
    omega
  rw [split_eq, flatMap_pieces, Nat.min_eq_left hcover]
  rfl

theorem size_le_of_mem_split {part : NodeRange} (h : part ∈ range.split size) :
    part.size ≤ size := by
  rw [split_eq] at h
  obtain ⟨i, _, rfl⟩ := List.mem_map.mp h
  rw [size_piece]
  exact Nat.min_le_right _ _

end NodeRange

/-- The ranges of a partition contain the nodes in order. -/
theorem flatMap_rangePartition (nodeCount batches minSize : Nat) :
    (rangePartition nodeCount batches minSize).flatMap NodeRange.nodes = List.range nodeCount := by
  unfold rangePartition
  split_ifs with hzero
  · rw [hzero]
    rfl
  · rw [NodeRange.chunks, NodeRange.flatMap_split _ (Nat.lt_of_lt_of_le Nat.zero_lt_one
      (Nat.le_max_right _ _)), List.range_eq_range']
    rfl

/-- Cutting by weight leaves out none of the nodes from `start` on. -/
theorem flatMap_cutByWeight {start node : Nat} (hstart : start ≤ node) (target weight : Nat)
    (weights : List Nat) :
    (cutByWeight target start node weight weights).flatMap NodeRange.nodes =
      List.range' start (node - start + weights.length) := by
  induction weights generalizing start node weight with
  | nil =>
    unfold cutByWeight
    split_ifs with hopen
    · rw [List.flatMap_singleton, List.length_nil]
      rfl
    · have hnone : node - start + ([] : List Nat).length = 0 := by
        rw [List.length_nil]
        omega
      rw [hnone]
      rfl
  | cons w weights ih =>
    unfold cutByWeight
    split_ifs with hclosed
    · have hrest : start + (node + 1 - start) = node + 1 := by omega
      have hlength : node + 1 - start + weights.length = node - start + (w :: weights).length := by
        rw [List.length_cons]
        omega
      rw [List.flatMap_cons, ih le_rfl, Nat.sub_self, Nat.zero_add, ← hlength,
        ← List.range'_append_1, hrest]
      rfl
    · have hlength : node + 1 - start + weights.length = node - start + (w :: weights).length := by
        rw [List.length_cons]
        omega
      rw [ih (Nat.le_succ_of_le hstart), hlength]

/-- The ranges of a partition by degrees contain the nodes in order. -/
theorem flatMap_degreePartition {view : View} {batches : Nat} {ranges : List NodeRange}
    (h : degreePartition view batches = .ok ranges) :
    ranges.flatMap NodeRange.nodes = List.range view.nodeCount := by
  unfold degreePartition at h
  by_cases hzero : view.nodeCount = 0
  · rw [if_pos hzero] at h
    rw [← Except.ok.inj h, hzero]
    rfl
  · rw [if_neg hzero] at h
    obtain ⟨weights, hweights, hcut⟩ := exists_of_bind_eq_ok h
    have hlength : 0 - 0 + weights.length = view.nodeCount := by
      rw [length_eq_of_mapM_eq_ok hweights, List.length_range, Nat.sub_self, Nat.zero_add]
    rw [← Except.ok.inj hcut, flatMap_cutByWeight le_rfl, hlength, List.range_eq_range']

/-- Nodes are split by their degrees, into however many ranges, if all degrees can be read. -/
theorem exists_degreePartition_iff {view : View} {batches : Nat} :
    (∃ ranges, degreePartition view batches = .ok ranges) ↔
      ∀ node < view.nodeCount, ∃ degree, view.degree node = .ok degree := by
  unfold degreePartition
  by_cases hzero : view.nodeCount = 0
  · rw [if_pos hzero, hzero]
    exact ⟨fun _ _ hnode ↦ absurd hnode (Nat.not_lt_zero _), fun _ ↦ ⟨[], rfl⟩⟩
  rw [if_neg hzero]
  constructor
  · rintro ⟨ranges, hranges⟩ node hnode
    obtain ⟨weights, hweights, _⟩ := exists_of_bind_eq_ok hranges
    obtain ⟨weight, hweight⟩ := exists_of_mapM_eq_ok hweights (List.mem_range.mpr hnode)
    obtain ⟨degree, hdegree, _⟩ := exists_of_bind_eq_ok hweight
    exact ⟨degree, hdegree⟩
  · intro hdegrees
    have hweight : ∀ node ∈ List.range view.nodeCount, ∃ weight,
        (do return (← view.degree node) + 1) = Except.ok weight ∧ True := by
      intro node hnode
      obtain ⟨degree, hdegree⟩ := hdegrees node (List.mem_range.mp hnode)
      exact ⟨degree + 1, by rw [hdegree]; rfl, trivial⟩
    obtain ⟨weights, hweights, _⟩ := exists_mapM_eq_ok hweight
    rw [hweights]
    exact ⟨_, rfl⟩

end PackedGraph
