import Mathlib
import PackedGraph.Proofs.Arithmetic.ExactSums
import PackedGraph.Proofs.Arithmetic.Rounding

/-!
# Whole numbers

A whole number of at most 53 bits has a mantissa of 53 bits, the last of which are zeros. The sum of
two such numbers is not rounded if it has at most 53 bits, too. Addition is therefore exact on whole
numbers whose absolute values add up to less than 2⁵³.
-/

namespace PackedGraph.WholeNumbers

open Float.Model Float.Model.UnpackedFloat Rounding

variable {m n k : Nat} {z w : Int} {sign : Sign} {x y : UnpackedFloat}

/-! ## Representations -/

/-- The number is zero, or it has a mantissa of 53 bits of which `k` are behind the point. -/
inductive Represents : Int → UnpackedFloat → Prop
  | zero : Represents 0 (.zero .positive)
  | finite {sign : Sign} {m k : Nat} {z : Int} (hm : 0 < m) :
    m.log2 = 52 → sign.apply m = z * 2 ^ k → Represents z (.finite sign m (-k) hm)

theorem natAbs_apply (sign : Sign) (m : Nat) : (sign.apply m).natAbs = m := by
  cases sign
  · exact Int.natAbs_neg m
  · rfl

theorem natAbs_eq_of_apply_eq (h : sign.apply m = z * 2 ^ k) : m = z.natAbs * 2 ^ k := by
  rw [← natAbs_apply sign m, h, Int.natAbs_mul, Int.natAbs_pow]
  rfl

theorem log2_natAbs_add (hm : 0 < m) (hlog : m.log2 = 52) (h : sign.apply m = z * 2 ^ k) :
    z.natAbs.log2 + k = 52 := by
  have habs := natAbs_eq_of_apply_eq h
  have hz : z.natAbs ≠ 0 := by
    intro hzero
    rw [hzero, Nat.zero_mul] at habs
    exact hm.ne' habs
  rw [← log2_mul_two_pow hz, ← habs, hlog]

theorem ne_zero_of_apply_eq (hm : 0 < m) (h : sign.apply m = z * 2 ^ k) : z ≠ 0 := by
  rintro rfl
  have habs := natAbs_eq_of_apply_eq h
  rw [Int.natAbs_zero, Nat.zero_mul] at habs
  exact hm.ne' habs

theorem eq_of_apply_eq {sign' : Sign} {m' : Nat} (hm : 0 < m)
    (h : sign.apply m = z * 2 ^ k) (h' : sign'.apply m' = z * 2 ^ k) : sign = sign' ∧ m = m' := by
  have heq : m = m' := (natAbs_eq_of_apply_eq h).trans (natAbs_eq_of_apply_eq h').symm
  subst heq
  have hsame : sign.apply m = sign'.apply m := h.trans h'.symm
  refine ⟨?_, rfl⟩
  cases sign <;> cases sign' <;> simp only [Sign.apply] at hsame ⊢ <;> omega

/-- A whole number has one representation. -/
theorem Represents.eq (hx : Represents z x) (hy : Represents z y) : x = y := by
  cases hx with
  | zero =>
    cases hy with
    | zero => rfl
    | finite hm _ h => exact absurd rfl (ne_zero_of_apply_eq hm h)
  | @finite sign m k _ hm hlog h =>
    cases hy with
    | zero => exact absurd rfl (ne_zero_of_apply_eq hm h)
    | @finite sign' m' k' _ hm' hlog' h' =>
      obtain rfl : k = k' := by
        have hbits := log2_natAbs_add hm hlog h
        have hbits' := log2_natAbs_add hm' hlog' h'
        omega
      obtain ⟨rfl, rfl⟩ := eq_of_apply_eq hm h h'
      rfl

theorem Represents.unpack_pack (h : Represents z x) : (pack x).unpack = x := by
  cases h with
  | zero => rfl
  | finite hm hlog h =>
    have hbits := log2_natAbs_add hm hlog h
    exact unpack_pack_finite hlog (by omega) (by omega) hm

theorem apply_mul_two_pow (sign : Sign) (m k : Nat) :
    sign.apply (m * 2 ^ k : Nat) = sign.apply m * 2 ^ k := by
  rw [Nat.cast_mul, Nat.cast_pow, Nat.cast_ofNat]
  cases sign
  · exact (neg_mul _ _).symm
  · rfl

/-! ## Rounding -/

theorem apply_natAbs_of_pos (hz : 0 < z) : Sign.positive.apply z.natAbs = z :=
  Int.natAbs_of_nonneg hz.le

theorem apply_natAbs_of_neg (hz : z < 0) : Sign.negative.apply z.natAbs = z := by
  rw [Sign.apply, Int.ofNat_natAbs_of_nonpos hz.le, neg_neg]

/-- A whole number with `k` zeros behind the point is only shifted. -/
theorem represents_round (hz : z ≠ 0) (hlt : z.natAbs < 2 ^ 53)
    (hsign : sign.apply z.natAbs = z) :
    Represents z (UnpackedFloat.round Format.binary64 sign (z.natAbs * 2 ^ k) (-k)) := by
  have hne : z.natAbs ≠ 0 := Int.natAbs_ne_zero.mpr hz
  have hlog : z.natAbs.log2 < 53 := (Nat.log2_lt hne).mpr hlt
  obtain ⟨zeros, hzeros⟩ : ∃ zeros, z.natAbs.log2 + zeros = 52 := ⟨52 - z.natAbs.log2, by omega⟩
  have hbits : (z.natAbs * 2 ^ zeros).log2 = 52 := by rw [log2_mul_two_pow hne, hzeros]
  have hpos : 0 < z.natAbs * 2 ^ zeros := Nat.mul_pos (Nat.pos_of_ne_zero hne) (Nat.two_pow_pos _)
  obtain ⟨shift, hshift⟩ : ∃ shift,
      (-(k : Int) - max ((z.natAbs * 2 ^ k).log2 + -(k : Int) - 52) (-1074)).toNat = shift :=
    ⟨_, rfl⟩
  -- The number is shifted if there are not enough zeros, and has too many of them otherwise.
  obtain ⟨rest, hrest⟩ : ∃ rest, k + shift = zeros + rest := by
    rw [log2_mul_two_pow hne] at hshift
    exact ⟨k + shift - zeros, by omega⟩
  have hmantissa : (z.natAbs * 2 ^ k) <<< shift = z.natAbs * 2 ^ zeros * 2 ^ rest := by
    rw [Nat.shiftLeft_eq, Nat.mul_assoc, ← Nat.pow_add, hrest, Nat.pow_add, Nat.mul_assoc]
  have hexponent : -(k : Int) - shift = -(zeros : Int) - rest := by omega
  rw [UnpackedFloat.round, targetExponent_totalExponent, decreaseExponent]
  simp only [hshift, hmantissa, hexponent]
  rw [roundWithAccuracy_exact hbits (by omega) hpos]
  refine .finite hpos hbits ?_
  rw [apply_mul_two_pow, hsign]

theorem represents_normalize (hlt : z.natAbs < 2 ^ 53) :
    Represents z (UnpackedFloat.normalize Format.binary64 (z * 2 ^ k) (-k) .positive) := by
  have hpow : (0 : Int) < 2 ^ k := Int.pow_pos (by decide)
  have habs : (z * 2 ^ k).natAbs = z.natAbs * 2 ^ k := by
    rw [Int.natAbs_mul, Int.natAbs_pow]
    rfl
  rw [UnpackedFloat.normalize]
  rcases lt_trichotomy z 0 with hneg | rfl | hpos
  · have hlow : z * 2 ^ k < 0 := Int.mul_neg_of_neg_of_pos hneg hpow
    have hnat : (-(z * 2 ^ k)).toNat = z.natAbs * 2 ^ k := by omega
    rw [Int.compare_eq_lt.mpr hlow, hnat]
    exact represents_round hneg.ne hlt (apply_natAbs_of_neg hneg)
  · rw [zero_mul, Int.compare_eq_eq.mpr rfl]
    exact .zero
  · have hhigh : 0 < z * 2 ^ k := Int.mul_pos hpos hpow
    have hnat : (z * 2 ^ k).toNat = z.natAbs * 2 ^ k := by omega
    rw [Int.compare_eq_gt.mpr hhigh, hnat]
    exact represents_round hpos.ne' hlt (apply_natAbs_of_pos hpos)

/-! ## Operations -/

theorem Represents.neg (h : Represents z x) (hz : z ≠ 0) : Represents (-z) x.neg := by
  cases h with
  | zero => exact absurd rfl hz
  | @finite sign m k _ hm hlog h =>
    refine .finite hm hlog ?_
    rw [neg_mul, ← h]
    cases sign
    · exact (neg_neg _).symm
    · rfl

theorem apply_shiftLeft (h : sign.apply m = z * 2 ^ k) (i : Nat) :
    sign.apply (m <<< i : Nat) = z * 2 ^ (k + i) := by
  rw [Nat.shiftLeft_eq, apply_mul_two_pow, h, pow_add, mul_assoc]

/-- A sum of at most 53 bits is not rounded. -/
theorem Represents.add (hx : Represents z x) (hy : Represents w y) (hlt : (z + w).natAbs < 2 ^ 53) :
    Represents (z + w) (x.add Format.binary64 y) := by
  cases hx with
  | zero =>
    cases hy with
    | zero => exact .zero
    | finite hm hlog h =>
      rw [Int.zero_add]
      exact .finite hm hlog h
  | @finite sign m k _ hm hlog h =>
    cases hy with
    | zero =>
      rw [Int.add_zero]
      exact .finite hm hlog h
    | @finite sign' n l _ hn hlog' h' =>
      have hk := log2_natAbs_add hm hlog h
      have hl := log2_natAbs_add hn hlog' h'
      have hmin : min (-(k : Int)) (-(l : Int)) = -((max k l : Nat) : Int) := by omega
      have hleft : (-(k : Int) - -((max k l : Nat) : Int)).toNat = max k l - k := by omega
      have hright : (-(l : Int) - -((max k l : Nat) : Int)).toNat = max k l - l := by omega
      simp only [UnpackedFloat.add, decreaseExponent, hmin, hleft, hright, apply_shiftLeft h,
        apply_shiftLeft h', Nat.add_sub_of_le (le_max_left k l),
        Nat.add_sub_of_le (le_max_right k l), ← add_mul]
      exact represents_normalize hlt

/-! ## Numbers from integers -/

theorem represents_ofNat (hn : n < 2 ^ 53) : Represents n (Float.ofNat n).toModel.unpack := by
  have hword : n.toUInt64.toNat = n := Nat.mod_eq_of_lt (hn.trans (by decide))
  have hfactor : (Float.ofBits 0x3FF0000000000000).toModel.unpack =
      .finite .positive (2 ^ 52) (-52) (by decide) := rfl
  have hproduct : Float.ofNat n = n.toUInt64.toFloat * Float.ofBits 0x3FF0000000000000 := by
    change Float.ofScientific n false 0 = _
    rw [Float.ofScientific, dif_pos ⟨hn, by decide⟩]
    rfl
  have hcount : Represents n (UnpackedFloat.ofNat Format.binary64 n) := by
    have hnormal := represents_normalize (z := n) (k := 0) hn
    rwa [pow_zero, mul_one] at hnormal
  have hscaled : (UnpackedFloat.ofNat Format.binary64 n).mul Format.binary64
      (.finite .positive (2 ^ 52) (-52) (by decide)) = UnpackedFloat.ofNat Format.binary64 n := by
    generalize UnpackedFloat.ofNat Format.binary64 n = x at hcount ⊢
    cases hcount with
    | zero => rfl
    | @finite sign m k _ hm hlog h =>
      have hbits := log2_natAbs_add hm hlog h
      have hsign : sign * .positive = sign := by cases sign <;> rfl
      rw [UnpackedFloat.mul, hsign]
      exact roundWithAccuracy_exact hlog (by omega) hm 52
  rw [hproduct]
  change Represents n (pack ((pack (UnpackedFloat.ofNat _ n.toUInt64.toNat)).unpack.mul
    Format.binary64 (Float.ofBits 0x3FF0000000000000).toModel.unpack)).unpack
  rwa [hword, hcount.unpack_pack, hfactor, hscaled, hcount.unpack_pack]

theorem represents_ofInt (hz : z.natAbs < 2 ^ 53) :
    Represents z (Float.ofInt z).toModel.unpack := by
  cases z with
  | ofNat n => exact represents_ofNat hz
  | negSucc n =>
    have hpositive : Represents ((n + 1 : Nat) : Int) (Float.ofNat (n + 1)).toModel.unpack :=
      represents_ofNat hz
    have hneg := hpositive.neg (by omega)
    change Represents (-((n + 1 : Nat) : Int)) (Float.Model.pack _).unpack
    rwa [hneg.unpack_pack]

theorem eq_ofInt_of_represents {x : Float} (hz : z.natAbs < 2 ^ 53)
    (h : Represents z x.toModel.unpack) : x = Float.ofInt z := by
  have hunpack := h.eq (represents_ofInt hz)
  rw [← FloatBits.ofModel_pack_unpack x, hunpack, FloatBits.ofModel_pack_unpack]

theorem ofInt_add_ofInt (hz : z.natAbs < 2 ^ 53) (hw : w.natAbs < 2 ^ 53)
    (hlt : (z + w).natAbs < 2 ^ 53) : Float.ofInt z + Float.ofInt w = Float.ofInt (z + w) := by
  have hsum := (represents_ofInt hz).add (represents_ofInt hw) hlt
  apply eq_ofInt_of_represents hlt
  change Represents (z + w) (Float.Model.pack _).unpack
  rwa [hsum.unpack_pack]

/-! ## Sums -/

variable {whole : Float → Int} {values : Multiset Float}

/-- The absolute values of the integers of some numbers, added up. -/
def magnitude (whole : Float → Int) (values : Multiset Float) : Nat :=
  (values.map fun value ↦ (whole value).natAbs).sum

theorem magnitude_add (whole : Float → Int) (left right : Multiset Float) :
    magnitude whole (left + right) = magnitude whole left + magnitude whole right := by
  rw [magnitude, Multiset.map_add, Multiset.sum_add]
  rfl

theorem magnitude_mono {part : Multiset Float} (hle : part ≤ values) :
    magnitude whole part ≤ magnitude whole values := by
  obtain ⟨rest, rfl⟩ := Multiset.le_iff_exists_add.mp hle
  rw [magnitude_add]
  exact Nat.le_add_right _ _

theorem natAbs_sum_le_magnitude (whole : Float → Int) (values : Multiset Float) :
    (values.map whole).sum.natAbs ≤ magnitude whole values := by
  induction values using Multiset.induction with
  | empty => exact le_rfl
  | cons value values ih =>
    rw [magnitude, Multiset.map_cons, Multiset.map_cons, Multiset.sum_cons, Multiset.sum_cons]
    exact (Int.natAbs_add_le _ _).trans (Nat.add_le_add_left ih _)

/-- Whole numbers add up to the sum of the integers. -/
theorem eq_ofInt_sum {total : Float} (h : Scalar.AddsUpTo values total)
    (hwhole : ∀ value ∈ values, value = Float.ofInt (whole value))
    (hlt : magnitude whole values < 2 ^ 53) : total = Float.ofInt (values.map whole).sum := by
  induction h with
  | zero => rfl
  | @add_value values total value _ ih =>
    have hsplit := magnitude_add whole {value} values
    have hsum := natAbs_sum_le_magnitude whole values
    have hvalue : magnitude whole {value} = (whole value).natAbs := Multiset.sum_singleton _
    obtain ⟨hfirst, hrest⟩ := Multiset.forall_mem_cons.mp hwhole
    rw [Multiset.singleton_add] at hsplit
    rw [ih hrest (by omega), Multiset.map_cons, Multiset.sum_cons, Int.add_comm]
    have hadd : Float.ofInt (values.map whole).sum + Float.ofInt (whole value) =
        Float.ofInt ((values.map whole).sum + whole value) :=
      ofInt_add_ofInt (by omega) (by omega) (by omega)
    rwa [← hfirst] at hadd
  | @add left right a b _ _ ihleft ihright =>
    have hsplit := magnitude_add whole left right
    have hleft := natAbs_sum_le_magnitude whole left
    have hright := natAbs_sum_le_magnitude whole right
    rw [ihleft (fun value hvalue ↦ hwhole value (Multiset.mem_add.mpr (.inl hvalue))) (by omega),
      ihright (fun value hvalue ↦ hwhole value (Multiset.mem_add.mpr (.inr hvalue))) (by omega),
      Multiset.map_add, Multiset.sum_add]
    exact ofInt_add_ofInt (by omega) (by omega) (by omega)
  | emptySum_add _ ih => exact (FloatBits.negativeZero_add _).trans (ih hwhole hlt)

/-- Addition is exact on whole numbers whose absolute values add up to less than 2⁵³. -/
theorem addExactly (whole : Float → Int)
    (hwhole : ∀ value ∈ values, value = Float.ofInt (whole value))
    (hlt : magnitude whole values < 2 ^ 53) : Scalar.AddExactly values := by
  intro part hpart a b ha hb
  have hpartial : ∀ value ∈ part, value = Float.ofInt (whole value) :=
    fun value hvalue ↦ hwhole value (Multiset.mem_of_le hpart hvalue)
  have hsmall : magnitude whole part < 2 ^ 53 := (magnitude_mono hpart).trans_lt hlt
  rw [eq_ofInt_sum ha hpartial hsmall, eq_ofInt_sum hb hpartial hsmall]

/-- Ones add up exactly, as long as there are fewer than 2⁵³. -/
theorem addExactly_ones (hone : ∀ value ∈ values, value = 1.0)
    (hlt : Multiset.card values < 2 ^ 53) : Scalar.AddExactly values := by
  have hcard : magnitude (fun _ ↦ 1) values = Multiset.card values := by
    rw [magnitude, Int.natAbs_one, Multiset.map_const', Multiset.sum_replicate, smul_eq_mul,
      Nat.mul_one]
  exact addExactly (fun _ ↦ 1) hone (hcard ▸ hlt)

end PackedGraph.WholeNumbers
