import Mathlib
import PackedGraph.Clustering.KMeans
import PackedGraph.Proofs.Arithmetic.Rounding

/-!
# Fractions of nodes

The fraction of the nodes that change their cluster is a quotient of two counts, where both counts
and the quotient are rounded. Counts below 2⁶⁴ are far away from the ends of the range of exponents,
so that rounding never takes a fraction to zero. A threshold of zero is therefore only met when no
node changes its cluster.
-/

namespace PackedGraph.Fractions

open Float.Model Float.Model.UnpackedFloat Rounding

variable {m n k : Nat} {e low high : Int} {x : UnpackedFloat}

/-! ## Rounding -/

/-- A positive number with a mantissa of 53 bits, and with an exponent between two bounds. -/
def IsNormal (low high : Int) (x : UnpackedFloat) : Prop :=
  ∃ m e hm, x = .finite .positive m e hm ∧ m.log2 = 52 ∧ low ≤ e ∧ e ≤ high

theorem roundedMantissa_bounds (extended : ExtendedMantissa) :
    extended.mantissa ≤ extended.roundedMantissa ∧
      extended.roundedMantissa ≤ extended.mantissa + 1 := by
  obtain ⟨m, roundBit, stickyBit⟩ := extended
  cases roundBit <;> cases stickyBit <;>
    simp only [ExtendedMantissa.roundedMantissa, ExtendedMantissa.accuracy,
      Accuracy.roundToNearestEven] <;> omega

/-- Rounding a mantissa of at least 53 bits changes the exponent of the first bit by at most one. -/
theorem isNormal_roundWithAccuracy (hm : 52 ≤ m.log2) (hmin : -1074 ≤ low)
    (hlow : low ≤ m.log2 + e - 52) (hhigh : m.log2 + e - 51 ≤ high) (accuracy : Accuracy) :
    IsNormal low high (roundWithAccuracy Format.binary64 .positive m e accuracy) := by
  have hshift := shiftToTargetExponent_eq hm (hmin.trans hlow) accuracy
  have hfloor : (ExtendedMantissa.ofMantissaAndAccuracy m accuracy >>>
      (m.log2 - 52)).mantissa.log2 = 52 := by
    rw [mantissa_shiftRight, mantissa_ofMantissaAndAccuracy, log2_div_two_pow]
    omega
  generalize ExtendedMantissa.ofMantissaAndAccuracy m accuracy >>> (m.log2 - 52) = extended
    at hshift hfloor
  obtain ⟨hge, hlt⟩ := (Nat.log2_eq_iff (ne_zero_of_log2_eq hfloor)).mp hfloor
  obtain ⟨hdown, hup⟩ := roundedMantissa_bounds extended
  have hpositive : extended.roundedMantissa ≠ 0 := by omega
  have hleast : 52 ≤ extended.roundedMantissa.log2 := (Nat.le_log2 hpositive).mpr (by omega)
  have hmost : extended.roundedMantissa.log2 < 54 := (Nat.log2_lt hpositive).mpr (by omega)
  -- A mantissa that is rounded up to 54 bits loses the last one of them, which is zero.
  have hrounded : (extended.roundedMantissa / 2 ^ (extended.roundedMantissa.log2 - 52)).log2 =
      52 := by
    rw [log2_div_two_pow]
    omega
  have hne := ne_zero_of_log2_eq hrounded
  have hagain := shiftToTargetExponent_eq (e := m.log2 + e - 52) hleast (by omega) .exact
  have hround : roundWithAccuracy Format.binary64 .positive m e accuracy =
      .finite .positive (extended.roundedMantissa / 2 ^ (extended.roundedMantissa.log2 - 52))
        (extended.roundedMantissa.log2 + (m.log2 + e - 52) - 52) (Nat.pos_of_ne_zero hne) := by
    rw [roundWithAccuracy, hshift]
    simp only [hagain, mantissa_shiftRight, mantissa_ofMantissaAndAccuracy]
    exact dif_neg hne
  exact ⟨_, _, _, hround, hrounded, by omega, by omega⟩

/-- A normal number comes back from its bits. -/
theorem IsNormal.unpack_pack (h : IsNormal low high x) (hlow : -1074 ≤ low) (hhigh : high ≤ 971) :
    (pack x).unpack = x := by
  obtain ⟨m, e, hm, rfl, hlog, hle, hge⟩ := h
  exact unpack_pack_finite hlog (hlow.trans hle) (hge.trans hhigh) hm

/-! ## Counts and fractions -/

theorem isNormal_ofNat (hpos : 0 < n) (hn : n < 2 ^ 64) :
    IsNormal (-52) 12 (UnpackedFloat.ofNat Format.binary64 n) := by
  have hlog : n.log2 < 64 := (Nat.log2_lt hpos.ne').mpr hn
  have hround : UnpackedFloat.ofNat Format.binary64 n =
      UnpackedFloat.round Format.binary64 .positive n 0 := by
    rw [UnpackedFloat.ofNat, UnpackedFloat.ofInt, UnpackedFloat.normalize,
      Int.compare_eq_gt.mpr (by omega)]
    rfl
  have hshift : (0 - max ((n.log2 : Int) + 0 - 52) (-1074)).toNat = 52 - n.log2 := by omega
  have hwidened : (n <<< (52 - n.log2)).log2 = n.log2 + (52 - n.log2) := by
    rw [Nat.shiftLeft_eq, log2_mul_two_pow hpos.ne']
  rw [hround, UnpackedFloat.round, targetExponent_totalExponent, decreaseExponent, hshift]
  exact isNormal_roundWithAccuracy (by omega) (by decide) (by omega) (by omega) .exact

theorem isNormal_ofScientific (hpos : 0 < n) (hn : n < 2 ^ 64) :
    IsNormal (-52) 12 (UnpackedFloat.ofScientific Format.binary64 n 0) := by
  have hlog : n.log2 < 64 := (Nat.log2_lt hpos.ne').mpr hn
  have hwidened : (n <<< 53).log2 = n.log2 + 53 := by
    rw [Nat.shiftLeft_eq, log2_mul_two_pow hpos.ne']
  have hlarge : ¬ (0 : Int) < -((2 ^ Format.binary64.exponentBits : Int) + n.log2) := by
    have hbits : (2 ^ Format.binary64.exponentBits : Int) = 2048 := rfl
    omega
  have hround : UnpackedFloat.ofScientific Format.binary64 n 0 =
      roundWithAccuracy Format.binary64 .positive (n <<< 53) (-53) .exact := by
    rw [UnpackedFloat.ofScientific, dif_neg hpos.ne', if_neg (by decide), if_neg hlarge,
      if_pos le_rfl]
    have hproduct : n <<< (1 + 52) * 10 ^ (0 : Int).toNat = n <<< 53 := Nat.mul_one _
    simp only [UnpackedFloat.mul, Format.mantissaBits]
    rw [hproduct]
    rfl
  rw [hround]
  exact isNormal_roundWithAccuracy (by omega) (by decide) (by omega) (by omega) .exact

theorem IsNormal.mul_one (h : IsNormal low high x) (hlow : -1074 ≤ low) {hone : 0 < 2 ^ 52} :
    IsNormal low (high + 1)
      (x.mul Format.binary64 (.finite .positive (2 ^ 52) (-52) hone)) := by
  obtain ⟨m, e, hm, rfl, hlog, hle, hge⟩ := h
  have hproduct : (m * 2 ^ 52).log2 = 104 := by rw [log2_mul_two_pow hm.ne', hlog]
  exact isNormal_roundWithAccuracy (by omega) hlow (by omega) (by omega) .exact

/-- Division shifts the dividend by 53 bits, so that the quotient has at least 53 bits. -/
theorem IsNormal.div {low' high' : Int} {y : UnpackedFloat} (hx : IsNormal low high x)
    (hy : IsNormal low' high' y) (hmin : -1074 ≤ low - high' - 53) :
    IsNormal (low - high' - 53) (high - low' - 51) (x.div Format.binary64 y) := by
  obtain ⟨m, e, hm, rfl, hlog, hle, hge⟩ := hx
  obtain ⟨n, f, hn, rfl, hlog', hle', hge'⟩ := hy
  obtain ⟨hleast, hmost⟩ := (Nat.log2_eq_iff hm.ne').mp hlog
  obtain ⟨hleast', hmost'⟩ := (Nat.log2_eq_iff hn.ne').mp hlog'
  have htarget : min (e - f) (Format.binary64.targetExponent
      (totalExponent m e - totalExponent n f)) = e - f - 53 := by
    have hbits : (Format.binary64.mantissaBits : Int) = 53 := rfl
    have hsmallest : Format.binary64.minExponent = -1074 := rfl
    rw [Format.targetExponent, totalExponent, totalExponent, hlog, hlog', hbits, hsmallest]
    omega
  have hshift : (e - f - (e - f - 53)).toNat = 53 := by omega
  have hlower : 2 ^ 52 ≤ m <<< 53 / n := by
    rw [Nat.le_div_iff_mul_le hn, Nat.shiftLeft_eq]
    omega
  have hupper : m <<< 53 / n < 2 ^ 54 := by
    rw [Nat.div_lt_iff_lt_mul hn, Nat.shiftLeft_eq]
    omega
  have hne : m <<< 53 / n ≠ 0 := by omega
  have hbits : 52 ≤ (m <<< 53 / n).log2 := (Nat.le_log2 hne).mpr hlower
  have hbits' : (m <<< 53 / n).log2 < 54 := (Nat.log2_lt hne).mpr hupper
  simp only [UnpackedFloat.div, divCore, htarget, hshift]
  exact isNormal_roundWithAccuracy hbits hmin (by omega) (by omega) _

/-- A positive count is rounded to a normal number. -/
theorem isNormal_unpack_ofNat (hpos : 0 < n) (hn : n < 2 ^ 64) :
    IsNormal (-52) 13 (Float.ofNat n).toModel.unpack := by
  by_cases hexact : n < 2 ^ 53
  · have hword : n.toUInt64.toNat = n := Nat.mod_eq_of_lt hn
    have hfactor : (Float.ofBits 0x3FF0000000000000).toModel.unpack =
        .finite .positive (2 ^ 52) (-52) (by decide) := rfl
    have hproduct : Float.ofNat n = n.toUInt64.toFloat * Float.ofBits 0x3FF0000000000000 := by
      change Float.ofScientific n false 0 = _
      rw [Float.ofScientific, dif_pos ⟨hexact, by decide⟩]
      rfl
    have hcount := isNormal_ofNat hpos hn
    rw [hproduct]
    change IsNormal _ _ (pack ((pack (UnpackedFloat.ofNat _ n.toUInt64.toNat)).unpack.mul
      Format.binary64 (Float.ofBits 0x3FF0000000000000).toModel.unpack)).unpack
    rw [hword, hcount.unpack_pack (by decide) (by decide), hfactor,
      (hcount.mul_one (by decide)).unpack_pack (by decide) (by decide)]
    exact hcount.mul_one (by decide)
  · have hmodel : Float.ofNat n = .ofModel (.ofScientific n 0) := by
      change Float.ofScientific n false 0 = _
      rw [Float.ofScientific, dif_neg fun h ↦ hexact h.1]
      rfl
    have hcount := isNormal_ofScientific hpos hn
    rw [hmodel]
    change IsNormal _ _ (pack (UnpackedFloat.ofScientific Format.binary64 n 0)).unpack
    rw [hcount.unpack_pack (by decide) (by decide)]
    obtain ⟨m, e, hm, heq, hlog, hle, hge⟩ := hcount
    exact ⟨m, e, hm, heq, hlog, hle, hge.trans (by decide)⟩

/-- A fraction of positive counts is rounded to a normal number. -/
theorem isNormal_unpack_div (hm : 0 < m) (hm' : m < 2 ^ 64) (hn : 0 < n) (hn' : n < 2 ^ 64) :
    IsNormal (-118) 14 (Float.ofNat m / Float.ofNat n).toModel.unpack := by
  have hquotient := (isNormal_unpack_ofNat hm hm').div (isNormal_unpack_ofNat hn hn') (by decide)
  change IsNormal _ _ (pack ((Float.ofNat m).toModel.unpack.div Format.binary64
    (Float.ofNat n).toModel.unpack)).unpack
  rw [hquotient.unpack_pack (by decide) (by decide)]
  exact hquotient

/-- A number that equals zero is positive or negative zero. -/
theorem exists_unpack_eq_zero {threshold : Float} (h : threshold == 0.0) :
    ∃ sign, threshold.toModel.unpack = .zero sign := by
  have hcompare : (threshold.toModel.unpack.compare (.zero .positive) == some .eq) = true := h
  rcases hthreshold : threshold.toModel.unpack with sign | _ | sign | ⟨sign, m, e, hm⟩
  · rw [hthreshold] at hcompare
    cases sign <;> exact nomatch hcompare
  · rw [hthreshold] at hcompare
    exact nomatch hcompare
  · exact ⟨sign, rfl⟩
  · rw [hthreshold] at hcompare
    cases sign <;> exact nomatch hcompare

theorem IsNormal.le_zero (h : IsNormal low high x) (sign : Sign) : x.le (.zero sign) = false := by
  obtain ⟨m, e, hm, rfl, _⟩ := h
  rfl

end PackedGraph.Fractions

/-- With a threshold of zero, clusters are not settled while a node changes its cluster. -/
theorem PackedGraph.KMeans.isSettled_eq_false {threshold : Float} {nodeCount swaps : Nat}
    (hthreshold : threshold == 0.0) (hswaps : 0 < swaps) (hle : swaps ≤ nodeCount)
    (hcount : nodeCount < UInt64.size) : isSettled threshold nodeCount swaps = false := by
  obtain ⟨sign, hzero⟩ := Fractions.exists_unpack_eq_zero hthreshold
  have hnormal := Fractions.isNormal_unpack_div hswaps (hle.trans_lt hcount)
    (hswaps.trans_le hle) hcount
  refine decide_eq_false fun hbelow ↦ ?_
  have hcompare : (Float.ofNat swaps / Float.ofNat nodeCount).toModel.unpack.le
      threshold.toModel.unpack = true := of_decide_eq_true hbelow
  rw [hzero, hnormal.le_zero] at hcompare
  exact nomatch hcompare
