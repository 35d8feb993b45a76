import Mathlib
import PackedGraph.Centrality.SharedVisit

/-!
# Masks of sources

A mask has 64 bits, one for each source of a group. Masks are read bit by bit here, so that unions
and differences of masks become statements on single sources.
-/

namespace PackedGraph.SharedVisit

theorem testBit_or (a b : UInt64) (bit : Nat) :
    (a ||| b).toNat.testBit bit = (a.toNat.testBit bit || b.toNat.testBit bit) := by
  rw [UInt64.toNat_or, Nat.testBit_or]

theorem testBit_lt {mask : UInt64} {bit : Nat} (h : mask.toNat.testBit bit = true) :
    bit < 64 := by
  by_contra hbit
  have hle : 2 ^ 64 ≤ 2 ^ bit := Nat.pow_le_pow_right (by decide) (not_lt.mp hbit)
  rw [Nat.testBit_lt_two_pow (mask.toNat_lt.trans_le hle)] at h
  exact absurd h Bool.false_ne_true

theorem testBit_andNot (a b : UInt64) (bit : Nat) :
    (a &&& ~~~b).toNat.testBit bit = (a.toNat.testBit bit && !b.toNat.testBit bit) := by
  have hnot : (~~~b).toNat = 2 ^ 64 - (b.toNat + 1) := by
    rw [UInt64.toNat_not, Nat.sub_sub, Nat.add_comm 1]
    rfl
  rw [UInt64.toNat_and, Nat.testBit_and, hnot, Nat.testBit_two_pow_sub_succ b.toNat_lt]
  cases ha : a.toNat.testBit bit with
  | false => rfl
  | true => rw [decide_eq_true (testBit_lt ha), Bool.true_and]

theorem ne_zero_iff_testBit {mask : UInt64} :
    mask ≠ 0 ↔ ∃ bit, mask.toNat.testBit bit = true := by
  constructor
  · intro h
    by_contra hbits
    apply h
    apply UInt64.toNat_inj.mp
    apply Nat.zero_of_testBit_eq_false
    intro bit
    exact Bool.eq_false_iff.mpr fun hbit ↦ hbits ⟨bit, hbit⟩
  · rintro ⟨bit, hbit⟩ rfl
    rw [UInt64.toNat_zero, Nat.zero_testBit] at hbit
    exact absurd hbit Bool.false_ne_true

theorem eq_of_testBit_iff {a b : UInt64}
    (h : ∀ bit, a.toNat.testBit bit = true ↔ b.toNat.testBit bit = true) : a = b := by
  apply UInt64.toNat_inj.mp
  apply Nat.eq_of_testBit_eq
  intro bit
  exact Bool.eq_iff_iff.mpr (h bit)

theorem testBit_one_shiftLeft {place : Nat} (hplace : place < 64) (bit : Nat) :
    ((1 : UInt64) <<< UInt64.ofNat place).toNat.testBit bit = decide (place = bit) := by
  have hshift : ((1 : UInt64) <<< UInt64.ofNat place).toNat = 2 ^ place := by
    have hlt : 2 ^ place < 2 ^ 64 := Nat.pow_lt_pow_right (by decide) hplace
    rw [UInt64.toNat_shiftLeft, UInt64.toNat_ofNat', Nat.mod_eq_of_lt (hplace.trans (by decide)),
      Nat.mod_eq_of_lt hplace, UInt64.toNat_one, Nat.one_shiftLeft, Nat.mod_eq_of_lt hlt]
  rw [hshift, Nat.testBit_two_pow]

theorem countP_range_getElem? {α : Type} (p : α → Bool) (list : List α) {count : Nat}
    (h : list.length ≤ count) :
    ((List.range count).countP fun i ↦ list[i]?.any p) = list.countP p := by
  induction list generalizing count with
  | nil =>
    rw [List.countP_nil, List.countP_eq_zero]
    intro i _
    rw [List.getElem?_nil]
    exact Bool.false_ne_true
  | cons element list ih =>
    cases count with
    | zero => exact absurd h (Nat.not_succ_le_zero _)
    | succ count =>
      rw [List.range_succ_eq_map, List.countP_cons, List.countP_map, List.countP_cons,
        ← ih (Nat.le_of_succ_le_succ h)]
      rfl

/-- A mask has as many ones as there are sources with a property, if each bit tells whether its
source has the property. -/
theorem onesOf_eq_countP {mask : UInt64} {sources : List Nat} {p : Nat → Bool}
    (hsources : sources.length ≤ sourcesPerVisit)
    (hmask : ∀ bit, mask.toNat.testBit bit = true ↔ ∃ s, sources[bit]? = some s ∧ p s = true) :
    onesOf mask = sources.countP p := by
  rw [onesOf, ← countP_range_getElem? p sources hsources]
  apply List.countP_congr
  intro bit _
  rw [hmask, Option.any_eq_true]

variable {masks : Array UInt64}

theorem maskOf_setIfInBounds (node : Nat) (mask : UInt64) (other : Nat) :
    maskOf (masks.setIfInBounds node mask) other =
      if node = other ∧ node < masks.size then mask else maskOf masks other := by
  unfold maskOf
  rw [Array.getD_eq_getD_getElem?, Array.getD_eq_getD_getElem?, Array.getElem?_setIfInBounds]
  by_cases h : node = other
  · subst h
    by_cases hlt : node < masks.size
    · rw [if_pos rfl, if_pos hlt, if_pos ⟨rfl, hlt⟩, Option.getD_some]
    · rw [if_pos rfl, if_neg hlt, if_neg (hlt ·.2), Array.getElem?_eq_none (not_lt.mp hlt)]
  · rw [if_neg h, if_neg (h ·.1)]

theorem maskOf_eq_zero_of_le {node : Nat} (h : masks.size ≤ node) : maskOf masks node = 0 := by
  rw [maskOf, Array.getD_eq_getD_getElem?, Array.getElem?_eq_none h, Option.getD_none]

theorem lt_size_of_maskOf_ne_zero {node : Nat} (h : maskOf masks node ≠ 0) :
    node < masks.size := by
  by_contra hle
  exact h (maskOf_eq_zero_of_le (not_lt.mp hle))

theorem maskOf_clear (node other : Nat) :
    maskOf (masks.setIfInBounds node 0) other =
      if node = other then 0 else maskOf masks other := by
  rw [maskOf_setIfInBounds]
  by_cases h : node = other
  · rw [if_pos h]
    split_ifs with hlt
    · rfl
    · exact maskOf_eq_zero_of_le (h ▸ not_lt.mp fun hnode ↦ hlt ⟨h, hnode⟩)
  · rw [if_neg h, if_neg (h ·.1)]

/-- A mask of a node has the bit of a source. -/
def HasBit (masks : Array UInt64) (node bit : Nat) : Prop :=
  (maskOf masks node).toNat.testBit bit = true

theorem maskOf_ne_zero_iff {node : Nat} : maskOf masks node ≠ 0 ↔ ∃ bit, HasBit masks node bit :=
  ne_zero_iff_testBit

/-! ## Clearing and marking -/

def clearAll (masks : Array UInt64) (nodes : List Nat) : Array UInt64 :=
  nodes.foldl (fun masks node ↦ masks.setIfInBounds node 0) masks

theorem size_clearAll (nodes : List Nat) : (clearAll masks nodes).size = masks.size := by
  induction nodes generalizing masks with
  | nil => rfl
  | cons node nodes ih =>
    have hrest := @ih (masks.setIfInBounds node 0)
    rw [Array.size_setIfInBounds] at hrest
    exact hrest

theorem maskOf_clearAll (nodes : List Nat) (node : Nat) :
    maskOf (clearAll masks nodes) node = if node ∈ nodes then 0 else maskOf masks node := by
  induction nodes generalizing masks with
  | nil => rw [if_neg (List.not_mem_nil)]; rfl
  | cons first nodes ih =>
    have hrest := @ih (masks.setIfInBounds first 0)
    rw [maskOf_clear] at hrest
    refine hrest.trans ?_
    by_cases hfirst : first = node
    · rw [if_pos hfirst, ite_self, if_pos (hfirst ▸ List.mem_cons_self)]
    · simp only [List.mem_cons, Ne.symm hfirst, false_or, if_neg hfirst]

/-- Gives each source its bit, from a first bit on. -/
def markFrom (masks : Array UInt64) (sources : List Nat) (bit : Nat) : Array UInt64 :=
  (sources.zipIdx bit).foldl (fun masks (source, bit) ↦
    masks.setIfInBounds source (1 <<< UInt64.ofNat bit)) masks

theorem size_markFrom (sources : List Nat) (bit : Nat) :
    (markFrom masks sources bit).size = masks.size := by
  induction sources generalizing masks bit with
  | nil => rfl
  | cons source sources ih =>
    have hrest := @ih (masks.setIfInBounds source (1 <<< UInt64.ofNat bit)) (bit + 1)
    rw [Array.size_setIfInBounds] at hrest
    exact hrest

theorem maskOf_markFrom {sources : List Nat} (hnodup : sources.Nodup)
    (hlt : ∀ source ∈ sources, source < masks.size) (bit node : Nat) :
    maskOf (markFrom masks sources bit) node =
      if node ∈ sources then 1 <<< UInt64.ofNat (bit + sources.idxOf node)
      else maskOf masks node := by
  induction sources generalizing masks bit with
  | nil => rw [if_neg List.not_mem_nil]; rfl
  | cons source sources ih =>
    obtain ⟨hsource, hnodup⟩ := List.nodup_cons.mp hnodup
    have hrest := @ih (masks.setIfInBounds source (1 <<< UInt64.ofNat bit)) hnodup
      (fun other h ↦ by
        rw [Array.size_setIfInBounds]
        exact hlt other (List.mem_cons_of_mem _ h)) (bit + 1)
    refine hrest.trans ?_
    by_cases hnode : source = node
    · subst hnode
      rw [if_neg hsource, if_pos List.mem_cons_self, List.idxOf_cons_self, maskOf_setIfInBounds,
        if_pos ⟨rfl, hlt source List.mem_cons_self⟩]
      rfl
    · by_cases hmem : node ∈ sources
      · rw [if_pos hmem, if_pos (List.mem_cons_of_mem _ hmem), List.idxOf_cons_ne _ hnode,
          Nat.add_right_comm, Nat.add_assoc]
      · rw [if_neg hmem, if_neg (List.not_mem_cons_of_ne_of_not_mem (Ne.symm hnode) hmem),
          maskOf_setIfInBounds, if_neg fun h ↦ hnode h.1]

/-- After marking, the mask of a node has the bits of the places where it is a source. -/
theorem hasBit_markFrom {sources : List Nat} (hnodup : sources.Nodup)
    (hlt : ∀ source ∈ sources, source < masks.size) (hlength : sources.length ≤ sourcesPerVisit)
    (hzero : ∀ node, maskOf masks node = 0) (node bit : Nat) :
    HasBit (markFrom masks sources 0) node bit ↔ sources[bit]? = some node := by
  rw [HasBit, maskOf_markFrom hnodup hlt, Nat.zero_add]
  by_cases hmem : node ∈ sources
  · have hplace : sources.idxOf node < sources.length := List.idxOf_lt_length_iff.mpr hmem
    rw [if_pos hmem, testBit_one_shiftLeft (hplace.trans_le hlength), decide_eq_true_iff]
    constructor
    · rintro rfl
      exact List.getElem?_idxOf hmem
    · intro hbit
      obtain ⟨hbitLt, hget⟩ := List.getElem?_eq_some_iff.mp hbit
      rw [← hget]
      exact hnodup.idxOf_getElem bit hbitLt
  · rw [if_neg hmem, hzero, UInt64.toNat_zero, Nat.zero_testBit]
    constructor
    · intro h
      exact absurd h Bool.false_ne_true
    · intro h
      exact absurd (List.mem_of_getElem? h) hmem

end PackedGraph.SharedVisit
