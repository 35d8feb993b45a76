import Mathlib

/-!
# Numbers from their bits

A floating-point number is determined by its bits: sign, exponent and mantissa are cut out of the
bits without loss, and put together again.
-/

namespace PackedGraph.FloatBits

open Float.Model Float.Model.UnpackedFloat

abbrev Word := BitVec Format.binary64.numBits

theorem toBitVec_ofBitVec (b : BitVec 1) : (Sign.ofBitVec b).toBitVec = b := by
  revert b
  decide

theorem packComponents_unpack (b : Word) :
    packComponents Format.binary64 (Sign.ofBitVec (unpackSign b)) (unpackExponent b)
      (unpackMantissa b) = b := by
  rw [packComponents, toBitVec_ofBitVec]
  apply BitVec.eq_of_getLsbD_eq
  intro i hi
  simp only [unpackSign, unpackExponent, unpackMantissa, BitVec.getLsbD_append, BitVec.getLsbD_cast,
    BitVec.getLsbD_extractLsb]
  by_cases hmantissa : i < 52
  · simp [hmantissa]
  · by_cases hexponent : i < 63
    · have hposition : 52 + (i - 52) = i := by omega
      simp only [hmantissa, ↓reduceIte]
      rw [if_pos (by omega), hposition]
      simp
      omega
    · have hsign : i < 64 := hi
      have hposition : 52 + 11 + (i - 52 - 11) = i := by omega
      simp only [hmantissa, ↓reduceIte]
      rw [if_neg (by omega), hposition]
      simp
      omega

/-- The exponent of a subnormal number is that of the least normal ones. -/
theorem pack_subnormal {b : Word} (hexponent : unpackExponent b = 0#_)
    (hmantissa : 0 < (unpackMantissa b).toNat) :
    UnpackedFloat.pack Format.binary64 (.finite (Sign.ofBitVec (unpackSign b))
      (unpackMantissa b).toNat (((unpackExponent b).toNat : Int) - (Format.binary64.exponentBias +
        Format.binary64.mantissaBitsWithoutImplicit) + 1) hmantissa) = b := by
  have hb := packComponents_unpack b
  have hlog : (unpackMantissa b).toNat.log2 < 52 := by
    rw [Nat.log2_lt (by omega)]
    exact (unpackMantissa b).isLt
  have hbiased : (((unpackExponent b).toNat : Int) - (Format.binary64.exponentBias +
      Format.binary64.mantissaBitsWithoutImplicit) + 1 + Format.binary64.exponentBias +
      Format.binary64.mantissaBitsWithoutImplicit).toNat = 1 := by
    rw [hexponent, BitVec.toNat_zero]
    omega
  rw [hexponent] at hb
  rw [UnpackedFloat.pack]
  simp only [hbiased]
  rw [if_neg (by decide), if_neg (by simp only [Format.mantissaBits]; omega), BitVec.ofNat_toNat,
    BitVec.setWidth_eq]
  exact hb

theorem toNat_implicitBit (mantissa : BitVec 52) :
    (1#1 ++ mantissa).toNat = 2 ^ 52 + mantissa.toNat := by
  have hlt : mantissa.toNat < 2 ^ 52 := mantissa.isLt
  rw [BitVec.toNat_append, Nat.shiftLeft_eq, Nat.mul_comm, ← Nat.two_pow_add_eq_or_of_lt hlt]
  rfl

theorem pack_normal {b : Word} (hexponent : unpackExponent b ≠ -1#_)
    (hpos : 0 < (1#1 ++ unpackMantissa b).toNat) :
    UnpackedFloat.pack Format.binary64 (.finite (Sign.ofBitVec (unpackSign b))
      (1#1 ++ unpackMantissa b).toNat (((unpackExponent b).toNat : Int) -
        (Format.binary64.exponentBias + Format.binary64.mantissaBitsWithoutImplicit))
      hpos) = b := by
  have hmantissa : (unpackMantissa b).toNat < 2 ^ 52 := (unpackMantissa b).isLt
  have hlt : (unpackExponent b).toNat < 2 ^ 11 := (unpackExponent b).isLt
  have hne : (unpackExponent b).toNat ≠ 2 ^ 11 - 1 := by
    intro h
    apply hexponent
    apply BitVec.eq_of_toNat_eq
    rw [h]
    decide
  have hvalue := toNat_implicitBit (unpackMantissa b)
  have hlog : (1#1 ++ unpackMantissa b).toNat.log2 = 52 := by
    rw [hvalue, Nat.log2_eq_iff (by omega)]
    omega
  have hbiased : (((unpackExponent b).toNat : Int) - (Format.binary64.exponentBias +
      Format.binary64.mantissaBitsWithoutImplicit) + Format.binary64.exponentBias +
      Format.binary64.mantissaBitsWithoutImplicit).toNat = (unpackExponent b).toNat := by
    omega
  have hlow : BitVec.ofNat 52 (1#1 ++ unpackMantissa b).toNat = unpackMantissa b := by
    apply BitVec.eq_of_toNat_eq
    rw [hvalue, BitVec.toNat_ofNat]
    omega
  rw [UnpackedFloat.pack]
  simp only [hbiased, hlog]
  rw [if_neg (by omega), if_pos (by rfl), hlow, BitVec.ofNat_toNat, BitVec.setWidth_eq]
  exact packComponents_unpack b

theorem pack_unpack {b : Word} (valid : Format.binary64.Valid b) :
    UnpackedFloat.pack Format.binary64 (UnpackedFloat.unpack Format.binary64 b) = b := by
  have hb := packComponents_unpack b
  by_cases hspecial : unpackExponent b = -1#_
  · by_cases hmantissa : unpackMantissa b = 0#_
    · rw [hspecial, hmantissa] at hb
      simp only [UnpackedFloat.unpack, if_pos hspecial, if_pos hmantissa]
      exact hb
    · simp only [UnpackedFloat.unpack, if_pos hspecial, if_neg hmantissa]
      exact (valid.eq_packedNaN hspecial hmantissa).symm
  · by_cases hzero : unpackExponent b = 0#_
    · by_cases hmantissa : unpackMantissa b = 0#_
      · rw [hzero, hmantissa] at hb
        simp only [UnpackedFloat.unpack, if_neg hspecial, if_pos hzero, dif_pos hmantissa]
        exact hb
      · simp only [UnpackedFloat.unpack, if_neg hspecial, if_pos hzero, dif_neg hmantissa]
        exact pack_subnormal hzero _
    · simp only [UnpackedFloat.unpack, if_neg hspecial, if_neg hzero]
      exact pack_normal hspecial _

/-- A number comes back from its bits. -/
theorem ofBits_toBits (x : Float) : Float.ofBits x.toBits = x := by
  obtain ⟨bits, valid⟩ := x
  have h := pack_unpack valid
  apply congrArg Float.ofModel
  simp only [Float.toBits, Float.Model.ofBits, Float.Model.pack]
  congr 1
  exact congrArg UInt64.ofBitVec h

/-- Bits come back from the number that they stand for. What is not a number has lost its sign and
payload. -/
theorem toBits_ofBits {bits : UInt64} (hnumber : (Float.ofBits bits).isNaN = false) :
    (Float.ofBits bits).toBits = bits := by
  have hvalid : Format.binary64.Valid bits.toBitVec := by
    refine ⟨fun hexponent hmantissa ↦ ?_⟩
    have hunpack : UnpackedFloat.unpack Format.binary64 bits.toBitVec = .notANumber := by
      simp only [UnpackedFloat.unpack, if_pos hexponent, if_neg hmantissa]
    have hbits : Float.ofBits bits = Float.ofModel (Float.Model.pack .notANumber) :=
      congrArg (fun number ↦ Float.ofModel (Float.Model.pack number)) hunpack
    rw [hbits] at hnumber
    exact nomatch hnumber
  exact congrArg UInt64.ofBitVec (pack_unpack hvalid)

/-- A number comes back from what it is unpacked to. -/
theorem ofModel_pack_unpack (x : Float) : Float.ofModel (Float.Model.pack x.toModel.unpack) = x :=
  ofBits_toBits x

/-- Negative zero is neutral, also for the other zero and for what is not a number. -/
theorem negativeZero_add (x : Float) : -0.0 + x = x := by
  have hsum : (UnpackedFloat.zero .negative).add Format.binary64 x.toModel.unpack =
      x.toModel.unpack := by
    rcases x.toModel.unpack with _ | _ | ⟨_ | _⟩ | _ <;> rfl
  change Float.ofModel (Float.Model.pack ((UnpackedFloat.zero .negative).add Format.binary64
    x.toModel.unpack)) = x
  rw [hsum, ofModel_pack_unpack]

end PackedGraph.FloatBits
