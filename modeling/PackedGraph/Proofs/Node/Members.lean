import Mathlib
import PackedGraph.Node.IdMap

/-!
# Members of labels

The members of a label are sorted and freed of repetitions when an id map is built. A node is found
among them by halving exactly if it is one of them.
-/

namespace PackedGraph

namespace IdMap

/-- In an increasing array, halving finds what is there. -/
theorem bisect_iff {members : Array Nat} (hincreasing : members.toList.Pairwise (· < ·))
    (node : Nat) {start count : Nat} (hpos : 0 < count) (hcount : start + count ≤ members.size) :
    bisect members node start count = true ↔
      ∃ i, start ≤ i ∧ i < start + count ∧ members[i]? = some node := by
  have hlt (i j a b : Nat) (hij : i < j) (ha : members[i]? = some a) (hb : members[j]? = some b) :
      a < b := by
    obtain ⟨hi, rfl⟩ := Array.getElem?_eq_some_iff.mp ha
    obtain ⟨hj, rfl⟩ := Array.getElem?_eq_some_iff.mp hb
    exact List.pairwise_iff_getElem.mp hincreasing i j hi hj hij
  fun_induction bisect members node start count with
  | case1 start count hone =>
    have hlast : count = 1 := by omega
    subst hlast
    rw [beq_iff_eq]
    constructor
    · intro hfound
      exact ⟨start, le_rfl, Nat.lt_succ_self start, hfound⟩
    · rintro ⟨i, hle, hi, hfound⟩
      obtain rfl : i = start := by omega
      exact hfound
  | case2 start count hmore half hnone =>
    have hhalf : half = count / 2 := rfl
    rw [Array.getElem?_eq_none_iff] at hnone
    omega
  | case3 start count hmore half middle hmiddle ih =>
    have hhalf : half = count / 2 := rfl
    split_ifs at ih with hnode
    · rw [if_pos hnode]
      apply (ih (by omega) (by omega)).trans
      -- What stands at the middle or after it is too large.
      constructor
      · rintro ⟨i, hle, hi, hfound⟩
        exact ⟨i, hle, by omega, hfound⟩
      · rintro ⟨i, hle, hi, hfound⟩
        refine ⟨i, hle, ?_, hfound⟩
        by_contra hbeyond
        have hafter : start + half ≤ i := by omega
        rcases hafter.eq_or_lt with rfl | hafter
        · obtain rfl := Option.some.inj (hmiddle.symm.trans hfound)
          exact Nat.lt_irrefl _ hnode
        · exact (hlt _ _ _ _ hafter hmiddle hfound).asymm hnode
    · rw [if_neg hnode]
      apply (ih (by omega) (by omega)).trans
      -- What stands before the middle is too small.
      constructor
      · rintro ⟨i, hle, hi, hfound⟩
        exact ⟨i, by omega, by omega, hfound⟩
      · rintro ⟨i, hle, hi, hfound⟩
        refine ⟨i, ?_, by omega, hfound⟩
        by_contra hbefore
        exact hnode (hlt _ _ _ _ (not_le.mp hbefore) hfound hmiddle)

theorem bisect_eq_true_iff {members : Array Nat} (hincreasing : members.toList.Pairwise (· < ·))
    (node : Nat) : bisect members node 0 members.size = true ↔ node ∈ members := by
  rcases Nat.eq_zero_or_pos members.size with hempty | hpos
  · obtain rfl := Array.size_eq_zero_iff.mp hempty
    simp [bisect]
  · rw [bisect_iff hincreasing node hpos (Nat.zero_add _).le, Array.mem_iff_getElem?]
    constructor
    · rintro ⟨i, _, _, hfound⟩
      exact ⟨i, hfound⟩
    · rintro ⟨i, hfound⟩
      obtain ⟨hi, _⟩ := Array.getElem?_eq_some_iff.mp hfound
      exact ⟨i, Nat.zero_le i, hi.trans_eq (Nat.zero_add _).symm, hfound⟩

end IdMap

namespace IdMapBuilder

theorem mem_dropRepeats_iff {nodes : List Nat} {node : Nat} :
    node ∈ dropRepeats nodes ↔ node ∈ nodes := by
  fun_induction dropRepeats nodes with
  | case1 => rfl
  | case2 a => rfl
  | case3 a rest ih =>
    rw [ih]
    simp
  | case4 a b rest hne ih => rw [List.mem_cons, ih, ← List.mem_cons]

theorem pairwise_dropRepeats {nodes : List Nat} (h : nodes.Pairwise (· ≤ ·)) :
    (dropRepeats nodes).Pairwise (· < ·) := by
  fun_induction dropRepeats nodes with
  | case1 => exact .nil
  | case2 a => exact List.pairwise_singleton _ a
  | case3 a rest ih => exact ih h.of_cons
  | case4 a b rest hne ih =>
    have hrest := List.pairwise_cons.mp h
    refine List.pairwise_cons.mpr ⟨fun other hother ↦ ?_, ih hrest.2⟩
    have hfirst : a < b := (hrest.1 b List.mem_cons_self).lt_of_ne hne
    rcases List.mem_cons.mp (mem_dropRepeats_iff.mp hother) with rfl | hlater
    · exact hfirst
    · exact hfirst.trans_le ((List.pairwise_cons.mp hrest.2).1 other hlater)

theorem mem_sortMembers_iff {members : Array Nat} {node : Nat} :
    node ∈ sortMembers members ↔ node ∈ members := by
  rw [sortMembers, List.mem_toArray, mem_dropRepeats_iff, List.mem_mergeSort, Array.mem_toList_iff]

theorem pairwise_sortMembers (members : Array Nat) :
    (sortMembers members).toList.Pairwise (· < ·) :=
  pairwise_dropRepeats (List.pairwise_mergeSort' (· ≤ ·) members.toList)

end IdMapBuilder

end PackedGraph
