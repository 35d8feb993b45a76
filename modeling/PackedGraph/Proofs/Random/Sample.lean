import Mathlib
import PackedGraph.Random.Sample

/-!
# Samples are samples

No number above the upper bound is drawn: where the widening multiplication reaches the bound, it
leaves no room for a carry. A sample of `k ≤ n` numbers below `n` therefore consists of as many
different numbers, whichever method has drawn it.
-/

namespace PackedGraph

namespace Generator

theorem nextHalf_lt (g : Generator) : g.nextHalf.1 < UInt32.size :=
  Nat.div_lt_of_lt_mul g.next.1.toNat_lt

/-- A word times a range has a small lower half if its upper half is the last of the range. -/
theorem mod_le_of_div_add_one_eq {word range : Nat} (hword : word < UInt32.size)
    (hupper : word * range / UInt32.size + 1 = range) :
    word * range % UInt32.size ≤ UInt32.size - range := by
  have hproduct : word * range + range ≤ UInt32.size * range := by
    rw [← Nat.succ_mul]
    exact Nat.mul_le_mul_right range hword
  have hdiv := Nat.div_add_mod (word * range) UInt32.size
  have hlast : UInt32.size * range =
      UInt32.size * (word * range / UInt32.size) + UInt32.size := by
    rw [← Nat.mul_succ, Nat.succ_eq_add_one, hupper]
  omega

theorem draw_le (g : Generator) {low high : Nat} (h : low ≤ high) : (g.draw low high).1 ≤ high := by
  have hword := g.nextHalf_lt
  have hupper : g.nextHalf.1 * (high - low + 1) / UInt32.size < high - low + 1 :=
    Nat.div_lt_of_lt_mul (Nat.mul_lt_mul_of_pos_right hword (Nat.succ_pos _))
  unfold draw
  dsimp only
  split_ifs with hroom hcarry
  · -- A carry may come only from below the last number of the range.
    have hnotLast : g.nextHalf.1 * (high - low + 1) / UInt32.size + 1 ≠ high - low + 1 :=
      fun hlast ↦ absurd (mod_le_of_div_add_one_eq hword hlast) (Nat.not_le_of_lt hroom)
    dsimp only
    omega
  · dsimp only
    omega
  · dsimp only
    omega

end Generator

namespace Sample

/-- A list of `k` different numbers below `n`. -/
structure Valid (sample : List Nat) (n k : Nat) : Prop where
  length_eq : sample.length = k
  nodup : sample.Nodup
  lt : ∀ number ∈ sample, number < n

/-- Where the next number has been drawn before, the bound takes its place. -/
theorem Valid.next {sample : List Nat} {bound size t : Nat} (h : Valid sample bound size)
    (ht : t ≤ bound) :
    Valid (sample.map (fun s ↦ if s = t then bound else s) ++ [t]) (bound + 1) (size + 1) := by
  constructor
  · rw [List.length_append, List.length_map, h.length_eq, List.length_singleton]
  · rw [List.nodup_append']
    refine ⟨h.nodup.map_on fun a ha b hb hab ↦ ?_, List.nodup_singleton t, ?_⟩
    · have halt := h.lt a ha
      have hblt := h.lt b hb
      split_ifs at hab <;> omega
    · rw [List.disjoint_singleton]
      intro hmem
      obtain ⟨s, hs, hst⟩ := List.mem_map.mp hmem
      have hlt := h.lt s hs
      split_ifs at hst <;> omega
  · intro number hnumber
    rcases List.mem_append.mp hnumber with hold | hnew
    · obtain ⟨s, hs, rfl⟩ := List.mem_map.mp hold
      have hlt := h.lt s hs
      split_ifs <;> omega
    · rw [List.mem_singleton.mp hnew]
      exact Nat.lt_succ_of_le ht

theorem valid_floydFrom {sample : List Nat} {bound size : Nat} (h : Valid sample bound size)
    (count : Nat) (g : Generator) :
    Valid (floydFrom bound count g sample).1 (bound + count) (size + count) := by
  induction count generalizing bound size g sample with
  | zero => exact h
  | succ count ih =>
    have hnext := ih (h.next (g.draw_le (Nat.zero_le bound))) (g.draw 0 bound).2
    rw [Nat.add_right_comm, Nat.add_right_comm size] at hnext
    exact hnext

theorem perm_shuffleFrom (i count : Nat) (g : Generator) (numbers : Array Nat) :
    (shuffleFrom i count g numbers).1.Perm numbers := by
  induction count generalizing i g numbers with
  | zero => exact .refl numbers
  | succ count ih =>
    refine (ih (i + 1) (g.draw i (numbers.size - 1)).2 _).trans ?_
    unfold Array.swapIfInBounds
    split_ifs
    · exact Array.swap_perm _ _
    · exact .refl numbers
    · exact .refl numbers

/-- Both methods draw different numbers. -/
theorem valid_draw (g : Generator) {n k : Nat} (h : k ≤ n) : Valid (draw g n k).1 n k := by
  unfold draw
  split_ifs
  · have hperm : (shuffleFrom 0 k g (Array.range n)).1.toList.Perm (List.range n) := by
      rw [← Array.toList_range]
      exact (perm_shuffleFrom 0 k g (Array.range n)).toList
    have hsublist := List.take_sublist k (shuffleFrom 0 k g (Array.range n)).1.toList
    constructor
    · rw [shuffled, List.length_take, hperm.length_eq, List.length_range, Nat.min_eq_left h]
    · exact (hperm.nodup_iff.mpr List.nodup_range).sublist hsublist
    · intro number hnumber
      exact List.mem_range.mp (hperm.subset (hsublist.subset hnumber))
  · have hempty : Valid [] (n - k) 0 := ⟨rfl, List.nodup_nil, nofun⟩
    have hfloyd := valid_floydFrom hempty k g
    rw [Nat.sub_add_cancel h, Nat.zero_add] at hfloyd
    exact hfloyd

theorem valid_ofSeed (seed : UInt64) {n k : Nat} (h : k ≤ n) : Valid (ofSeed seed n k) n k :=
  valid_draw (.ofSeed seed) h

end Sample

end PackedGraph
