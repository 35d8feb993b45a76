import Mathlib

/-!
# The order of numbers

Numbers are ordered by their sign, their exponent and their mantissa, from one infinity to the
other. Only what is not a number has no place in this order.
-/

namespace PackedGraph.FloatOrder

open Float.Model Float.Model.UnpackedFloat

/-- The place in the order of numbers, between those of the two infinities. -/
def place : UnpackedFloat → Option (Int ×ₗ Int ×ₗ Int)
  | .notANumber => none
  | .infinity .negative => some (toLex (-2, toLex (0, 0)))
  | .finite .negative m e _ => some (toLex (-1, toLex (-e, -m)))
  | .zero _ => some (toLex (0, toLex (0, 0)))
  | .finite .positive m e _ => some (toLex (1, toLex (e, m)))
  | .infinity .positive => some (toLex (2, toLex (0, 0)))

theorem place_le {x : UnpackedFloat} {p : Int ×ₗ Int ×ₗ Int} (h : p ∈ place x) :
    p ≤ toLex (2, toLex (0, 0)) := by
  rcases x with ⟨_ | _⟩ | _ | _ | ⟨_ | _, m, e, hm⟩ <;>
    cases h <;> simp [Prod.Lex.toLex_le_toLex]

theorem le_place {x : UnpackedFloat} {p : Int ×ₗ Int ×ₗ Int} (h : p ∈ place x) :
    toLex (-2, toLex (0, 0)) ≤ p := by
  rcases x with ⟨_ | _⟩ | _ | _ | ⟨_ | _, m, e, hm⟩ <;>
    cases h <;> simp [Prod.Lex.toLex_le_toLex]

theorem compare_natCast (m n : Nat) : compare (m : Int) n = compare m n := by
  rw [← cmp_eq_compare, ← cmp_eq_compare, Nat.strictMono_cast.cmp_map_eq]

theorem compare_neg (e f : Int) : compare (-e) (-f) = (compare e f).swap := by
  have hanti : StrictAnti fun e : Int ↦ -e := fun _ _ ↦ Int.neg_lt_neg
  rw [← cmp_eq_compare, ← cmp_eq_compare, hanti.cmp_map_eq, cmp_swap]

theorem compare_toLex (s t e f m n : Int) :
    compare (toLex (s, toLex (e, m))) (toLex (t, toLex (f, n))) =
      (compare s t).then ((compare e f).then (compare m n)) := rfl

theorem compare_eq_bind_place (x y : UnpackedFloat) :
    x.compare y = (place x).bind fun a ↦ (place y).map fun b ↦ compare a b := by
  rcases x with ⟨_ | _⟩ | _ | _ | ⟨_ | _, m, e, hm⟩ <;>
    rcases y with ⟨_ | _⟩ | _ | _ | ⟨_ | _, n, f, hn⟩ <;>
    simp only [UnpackedFloat.compare, place, Option.bind_some, Option.bind_none, Option.map_some,
      Option.map_none, compare_toLex, compare_neg, compare_natCast, Ordering.swap_then] <;>
    rfl

variable {a b c : Float}

theorem lt_iff : a < b ↔ ∃ p ∈ place a.toModel.unpack, ∃ q ∈ place b.toModel.unpack, p < q := by
  have hlt : a < b ↔ a.toModel.unpack.lt b.toModel.unpack = true := decide_eq_true_iff
  rw [hlt, UnpackedFloat.lt, compare_eq_bind_place]
  cases place a.toModel.unpack <;> cases place b.toModel.unpack <;> simp [compare_lt_iff_lt]

theorem le_iff : a ≤ b ↔ ∃ p ∈ place a.toModel.unpack, ∃ q ∈ place b.toModel.unpack, p ≤ q := by
  have hle : a ≤ b ↔ a.toModel.unpack.le b.toModel.unpack = true := decide_eq_true_iff
  rw [hle, UnpackedFloat.le, compare_eq_bind_place]
  cases place a.toModel.unpack <;> cases place b.toModel.unpack <;>
    simp [← Ordering.ne_gt_iff_isLE, compare_le_iff_le]

theorem lt_of_le_of_lt (hab : a ≤ b) (hbc : b < c) : a < c := by
  obtain ⟨p, hp, q, hq, hle⟩ := le_iff.mp hab
  obtain ⟨q', hq', r, hr, hlt⟩ := lt_iff.mp hbc
  obtain rfl := Option.mem_unique hq hq'
  exact lt_iff.mpr ⟨p, hp, r, hr, hle.trans_lt hlt⟩

theorem le_of_lt (h : a < b) : a ≤ b := by
  obtain ⟨p, hp, q, hq, hlt⟩ := lt_iff.mp h
  exact le_iff.mpr ⟨p, hp, q, hq, hlt.le⟩

theorem lt_irrefl (a : Float) : ¬ a < a := by
  intro h
  obtain ⟨p, hp, q, hq, hlt⟩ := lt_iff.mp h
  obtain rfl := Option.mem_unique hp hq
  exact hlt.ne rfl

theorem le_trans (hab : a ≤ b) (hbc : b ≤ c) : a ≤ c := by
  obtain ⟨p, hp, q, hq, hle⟩ := le_iff.mp hab
  obtain ⟨q', hq', r, hr, hle'⟩ := le_iff.mp hbc
  obtain rfl := Option.mem_unique hq hq'
  exact le_iff.mpr ⟨p, hp, r, hr, hle.trans hle'⟩

theorem beq_iff : (a == b) = true ↔
    ∃ p ∈ place a.toModel.unpack, p ∈ place b.toModel.unpack := by
  have hbeq : (a == b) = (a.toModel.unpack.compare b.toModel.unpack == some .eq) := rfl
  rw [hbeq, compare_eq_bind_place]
  cases place a.toModel.unpack with
  | none => simp
  | some p => cases place b.toModel.unpack <;> simp [compare_eq_iff_eq, eq_comm (a := p)]

/-- Every number has a place in the order. -/
theorem exists_place (h : a.isNaN = false) : ∃ p, p ∈ place a.toModel.unpack := by
  have hunpack : a.toModel.unpack.isNaN = false := h
  generalize a.toModel.unpack = x at hunpack ⊢
  rcases x with ⟨_ | _⟩ | _ | _ | ⟨_ | _, m, e, hm⟩
  case notANumber => exact nomatch hunpack
  all_goals exact ⟨_, rfl⟩

theorem le_of_not_lt (ha : a.isNaN = false) (hb : b.isNaN = false) (h : ¬ a < b) : b ≤ a := by
  obtain ⟨p, hp⟩ := exists_place ha
  obtain ⟨q, hq⟩ := exists_place hb
  exact le_iff.mpr ⟨q, hq, p, hp, not_lt.mp fun hlt ↦ h (lt_iff.mpr ⟨p, hp, q, hq, hlt⟩)⟩

/-- Numbers are equal if and only if neither is larger than the other. Both zeros are equal. -/
theorem beq_iff_le_and_ge : (a == b) = true ↔ a ≤ b ∧ b ≤ a := by
  rw [beq_iff, le_iff, le_iff]
  constructor
  · rintro ⟨p, hp, hq⟩
    exact ⟨⟨p, hp, p, hq, le_rfl⟩, ⟨p, hq, p, hp, le_rfl⟩⟩
  · rintro ⟨⟨p, hp, q, hq, hle⟩, ⟨q', hq', p', hp', hge⟩⟩
    obtain rfl := Option.mem_unique hp hp'
    obtain rfl := Option.mem_unique hq hq'
    exact ⟨p, hp, hle.antisymm hge ▸ hq⟩

/-- What is less than some number is less than infinity. -/
theorem lt_infinity_of_lt (h : a < b) : a < 1.0 / 0.0 := by
  obtain ⟨p, hp, q, hq, hlt⟩ := lt_iff.mp h
  exact lt_iff.mpr ⟨p, hp, _, rfl, hlt.trans_le (place_le hq)⟩

theorem not_infinity_lt (a : Float) : ¬ 1.0 / 0.0 < a := by
  intro h
  obtain ⟨_, ⟨⟩, q, hq, hlt⟩ := lt_iff.mp h
  exact hlt.not_ge (place_le hq)

theorem not_lt_neg_infinity (a : Float) : ¬ a < -1.0 / 0.0 := by
  intro h
  obtain ⟨p, hp, _, ⟨⟩, hlt⟩ := lt_iff.mp h
  exact hlt.not_ge (le_place hp)

end PackedGraph.FloatOrder
