import Mathlib
import PackedGraph.Proofs.Block.FloatBits

/-!
# Rounding

Numbers are rounded to a mantissa of 53 bits by shifting it to the right. The shift is exact if no
bits are lost, and a number with such a mantissa comes back from its bits.
-/

namespace PackedGraph.Rounding

open Float.Model Float.Model.UnpackedFloat

variable {m k : Nat} {e : Int} {sign : Sign}

/-! ## Logarithms -/

theorem log2_mul_two_pow (hm : m ≠ 0) (k : Nat) : (m * 2 ^ k).log2 = m.log2 + k := by
  induction k with
  | zero => rw [pow_zero, Nat.mul_one, Nat.add_zero]
  | succ k ih =>
    have hne : m * 2 ^ k ≠ 0 := Nat.mul_ne_zero hm (Nat.two_pow_pos k).ne'
    rw [Nat.pow_succ, ← Nat.mul_assoc, Nat.mul_comm, Nat.log2_two_mul hne, ih, Nat.add_assoc]

theorem log2_div_two_pow : (m / 2 ^ k).log2 = m.log2 - k := by
  rw [Nat.log2_eq_log_two, Nat.log2_eq_log_two, Nat.log_div_base_pow]

theorem ne_zero_of_log2_eq (h : m.log2 = k + 1) : m ≠ 0 := by
  rintro rfl
  exact nomatch h

/-! ## Shifting -/

theorem mantissa_ofMantissaAndAccuracy (m : Nat) (accuracy : Accuracy) :
    (ExtendedMantissa.ofMantissaAndAccuracy m accuracy).mantissa = m := by
  rcases accuracy with _ | _ | _ | _ <;> rfl

theorem mantissa_shiftRight (extended : ExtendedMantissa) (k : Nat) :
    (extended >>> k).mantissa = extended.mantissa / 2 ^ k := by
  induction k with
  | zero => exact (Nat.div_one _).symm
  | succ k ih =>
    change (extended >>> k).mantissa / 2 = _
    rw [ih, Nat.div_div_eq_div_mul, Nat.pow_succ]

/-- No bits are lost by shifting out zeros. -/
theorem shiftRight_exact (m k : Nat) :
    ExtendedMantissa.ofMantissaAndAccuracy (m * 2 ^ k) .exact >>> k = ⟨m, false, false⟩ := by
  induction k generalizing m with
  | zero => rw [pow_zero, Nat.mul_one]; rfl
  | succ k ih =>
    have hdouble : m * 2 ^ (k + 1) = 2 * m * 2 ^ k := by rw [Nat.pow_succ]; ring
    change (ExtendedMantissa.ofMantissaAndAccuracy (m * 2 ^ (k + 1)) .exact >>> k).shiftRightOne = _
    rw [hdouble, ih, ExtendedMantissa.shiftRightOne, Nat.mul_div_cancel_left m Nat.two_pos,
      Nat.mul_mod_right]
    rfl

theorem targetExponent_totalExponent (m : Nat) (e : Int) :
    Format.binary64.targetExponent (totalExponent m e) = max (m.log2 + e - 52) (-1074) := by
  have hmin : Format.binary64.minExponent = -1074 := rfl
  have hbits : (Format.binary64.mantissaBits : Int) = 53 := rfl
  rw [Format.targetExponent, totalExponent, hmin, hbits]
  omega

/-- A mantissa of more than 53 bits is shifted until it has 53 of them. -/
theorem shiftToTargetExponent_eq (hm : 52 ≤ m.log2) (he : -1074 ≤ m.log2 + e - 52)
    (accuracy : Accuracy) : shiftToTargetExponent Format.binary64 m e accuracy =
      (ExtendedMantissa.ofMantissaAndAccuracy m accuracy >>> (m.log2 - 52),
        m.log2 + e - 52) := by
  have htarget : max (m.log2 + e - 52) (-1074) = m.log2 + e - 52 := max_eq_left he
  have hshift : (m.log2 + e - 52 - e).toNat = m.log2 - 52 := by omega
  have hexponent : e + ((m.log2 - 52 : Nat) : Int) = m.log2 + e - 52 := by omega
  simp only [shiftToTargetExponent, shiftToExponent, targetExponent_totalExponent, htarget, hshift,
    hexponent]

/-- A mantissa of 53 bits is not rounded, nor is it if zeros follow it. -/
theorem roundWithAccuracy_exact (hlog : m.log2 = 52) (he : -1074 ≤ e) (hm : 0 < m) (k : Nat) :
    roundWithAccuracy Format.binary64 sign (m * 2 ^ k) (e - k) .exact = .finite sign m e hm := by
  have hbits : (m * 2 ^ k).log2 = 52 + k := by rw [log2_mul_two_pow hm.ne', hlog]
  have hfirst := shiftToTargetExponent_eq (m := m * 2 ^ k) (e := e - k) (by omega) (by omega) .exact
  have hsecond := shiftToTargetExponent_eq (m := m) (e := e) (by omega) (by omega) .exact
  have hshift : 52 + k - 52 = k := Nat.add_sub_cancel_left 52 k
  have hback : ((52 + k : Nat) : Int) + (e - k) - 52 = e := by omega
  have hsame : ((52 : Nat) : Int) + e - 52 = e := by omega
  rw [hbits, hshift, shiftRight_exact, hback] at hfirst
  rw [hlog, hsame] at hsecond
  have hrounded : ExtendedMantissa.roundedMantissa ⟨m, false, false⟩ = m := rfl
  rw [roundWithAccuracy, hfirst]
  simp only [hrounded, hsecond, mantissa_shiftRight, mantissa_ofMantissaAndAccuracy, Nat.sub_self,
    pow_zero, Nat.div_one]
  exact dif_neg hm.ne'

/-! ## Bits -/

theorem unpackSign_packComponents (sign : Sign) (exponent : BitVec 11) (mantissa : BitVec 52) :
    unpackSign (packComponents Format.binary64 sign exponent mantissa) = sign.toBitVec := by
  apply BitVec.eq_of_getLsbD_eq
  intro i hi
  obtain rfl : i = 0 := Nat.lt_one_iff.mp hi
  have htop : (sign.toBitVec ++ exponent ++ mantissa).getLsbD 63 = sign.toBitVec.getLsbD 0 := by
    rw [BitVec.getLsbD_append, if_neg (by decide), BitVec.getLsbD_append, if_neg (by decide)]
  simp only [unpackSign, packComponents, BitVec.getLsbD_cast, BitVec.getLsbD_extractLsb]
  exact htop

/-- The biased exponents of normal numbers are neither zero nor the greatest one. -/
theorem unpack_packComponents {biased : Nat} (hpos : 0 < biased) (hbiased : biased < 2047)
    (hlog : m.log2 = 52) (hm : 0 < m) :
    UnpackedFloat.unpack Format.binary64 (packComponents Format.binary64 sign
      (BitVec.ofNat 11 biased) (BitVec.ofNat 52 m)) =
        .finite sign m (biased - (1023 + 52)) hm := by
  obtain ⟨hleast, hmost⟩ := (Nat.log2_eq_iff hm.ne').mp hlog
  have hbias : (Format.binary64.exponentBias : Int) = 1023 := rfl
  have hexponent : (BitVec.ofNat 11 biased).toNat = biased := by
    rw [BitVec.toNat_ofNat]
    omega
  have hones : BitVec.ofNat 11 biased ≠ -1#11 := by
    intro heq
    have hmax : biased = 2047 := hexponent.symm.trans (congrArg BitVec.toNat heq)
    omega
  have hzero : BitVec.ofNat 11 biased ≠ 0#11 := by
    intro heq
    have hmin : biased = 0 := hexponent.symm.trans (congrArg BitVec.toNat heq)
    omega
  have hmantissa : (1#1 ++ BitVec.ofNat 52 m).toNat = m := by
    rw [FloatBits.toNat_implicitBit, BitVec.toNat_ofNat]
    omega
  have hsign : Sign.ofBitVec sign.toBitVec = sign := by cases sign <;> rfl
  rw [UnpackedFloat.unpack]
  simp only [unpackExponent_packComponents, unpackMantissa_packComponents,
    unpackSign_packComponents, if_neg hones, if_neg hzero, hexponent, hmantissa, hbias,
    Nat.cast_ofNat, hsign]

/-- A normal number comes back from its bits. -/
theorem unpack_pack_finite (hlog : m.log2 = 52) (hlow : -1074 ≤ e) (hhigh : e ≤ 971) (hm : 0 < m) :
    (pack (.finite sign m e hm)).unpack = .finite sign m e hm := by
  have hbias : (Format.binary64.exponentBias : Int) = 1023 := rfl
  obtain ⟨biased, hbiased⟩ : ∃ biased : Nat, e + 1023 + 52 = biased :=
    ⟨_, (Int.toNat_of_nonneg (by omega)).symm⟩
  have hback : (biased : Int) - (1023 + 52) = e := by omega
  have hpacked : UnpackedFloat.pack Format.binary64 (.finite sign m e hm) =
      packComponents Format.binary64 sign (BitVec.ofNat 11 biased) (BitVec.ofNat 52 m) := by
    simp only [UnpackedFloat.pack, hbias, hlog, Nat.cast_ofNat, hbiased, Int.toNat_natCast]
    rw [if_neg (by omega)]
    rfl
  change UnpackedFloat.unpack Format.binary64 (UnpackedFloat.pack Format.binary64 _) = _
  rw [hpacked, unpack_packComponents (by omega) (by omega) hlog hm, hback]

end PackedGraph.Rounding
