import Mathlib
import PackedGraph.Proofs.Block.Codec

/-!
# The grammar of variable-length numbers

A code is a byte without the high bit after bytes with it, and carries the digits of a 64-bit
number. The reader accepts codes and nothing else, and the shortest code of a number is the one that
is written. What is no code is refused for one of two reasons, which the bytes decide.
-/

namespace PackedGraph.VarInt

/-- The number whose digits to base 128 are the low bits of some bytes, the first digit the lowest
one. -/
def digitsValue (code : List UInt8) : Nat :=
  Nat.ofDigits 128 (code.map fun byte ↦ byte.toNat % 128)

/-- Bytes with the high bit, and after them a byte without it. -/
def IsClosed (code : List UInt8) : Prop :=
  ∃ leading last, code = leading ++ [last] ∧ (∀ byte ∈ leading, 128 ≤ byte.toNat) ∧
    last.toNat < 128

/-- A code of a 64-bit number. Digits that are zero may make it longer than need be. -/
structure IsCode (code : List UInt8) (value : Nat) : Prop where
  closed : IsClosed code
  length_le : code.length ≤ 10
  value_eq : digitsValue code = value
  value_lt : value < 2 ^ 64

/-- A page ends before a number that starts at an index does, and before there is a byte for which
there is no room in a 64-bit number. -/
structure RunsOut (bytes : Array UInt8) (index : Nat) : Prop where
  open_until_end : ∀ position byte, index ≤ position → bytes[position]? = some byte →
    128 ≤ byte.toNat
  size_le : bytes.size ≤ index + 10
  tenth_le : ∀ byte, bytes[index + 9]? = some byte → byte.toNat % 128 ≤ 1

theorem isClosed_cons {byte : UInt8} {rest : List UInt8} :
    IsClosed (byte :: rest) ↔
      byte.toNat < 128 ∧ rest = [] ∨ 128 ≤ byte.toNat ∧ IsClosed rest := by
  constructor
  · rintro ⟨leading, last, hcode, hleading, hlast⟩
    cases leading with
    | nil =>
      obtain ⟨rfl, rfl⟩ := List.cons.inj hcode
      exact .inl ⟨hlast, rfl⟩
    | cons first leading =>
      obtain ⟨rfl, rfl⟩ := List.cons.inj hcode
      have hrest : ∀ byte ∈ leading, 128 ≤ byte.toNat :=
        fun other hother ↦ hleading other (List.mem_cons_of_mem _ hother)
      exact .inr ⟨hleading _ List.mem_cons_self, leading, last, rfl, hrest, hlast⟩
  · rintro (⟨hlast, rfl⟩ | ⟨hfirst, leading, last, rfl, hleading, hlast⟩)
    · exact ⟨[], byte, rfl, fun _ h ↦ absurd h List.not_mem_nil, hlast⟩
    · exact ⟨byte :: leading, last, rfl, List.forall_mem_cons.mpr ⟨hfirst, hleading⟩, hlast⟩

theorem IsClosed.ne_nil {code : List UInt8} (h : IsClosed code) : code ≠ [] := by
  obtain ⟨leading, last, rfl, _⟩ := h
  simp

theorem digitsValue_cons (byte : UInt8) (rest : List UInt8) :
    digitsValue (byte :: rest) = byte.toNat % 128 + 128 * digitsValue rest := by
  rw [digitsValue, List.map_cons, Nat.ofDigits_cons]
  rfl

theorem digitsValue_lt (code : List UInt8) : digitsValue code < 128 ^ code.length := by
  have hdigits : ∀ digit ∈ code.map (fun byte ↦ byte.toNat % 128), digit < 128 := by
    intro digit hdigit
    obtain ⟨byte, _, rfl⟩ := List.mem_map.mp hdigit
    exact Nat.mod_lt _ (by omega)
  have hlt := Nat.ofDigits_lt_base_pow_length (by omega) hdigits
  rwa [List.length_map] at hlt

/-! ## Codes with a given number of digits

The reader counts the digits it may still read, and the last of them has room for a single bit. So
with `digits` digits it reads the numbers below `128 ^ digits / 64`.
-/

/-- A code of a number that is read with at most so many digits. -/
structure IsCodeWithin (digits : Nat) (code : List UInt8) (value : Nat) : Prop where
  closed : IsClosed code
  length_le : code.length ≤ digits
  value_eq : digitsValue code = value
  value_lt : 64 * value < 128 ^ digits

theorem isCodeWithin_ten {code : List UInt8} {value : Nat} :
    IsCodeWithin 10 code value ↔ IsCode code value := by
  constructor
  · rintro ⟨hclosed, hlength, hvalue, hlt⟩
    exact ⟨hclosed, hlength, hvalue, by omega⟩
  · rintro ⟨hclosed, hlength, hvalue, hlt⟩
    exact ⟨hclosed, hlength, hvalue, by omega⟩

theorem isCodeWithin_cons {digits value : Nat} {byte : UInt8} {rest : List UInt8} :
    IsCodeWithin (digits + 1) (byte :: rest) value ↔
      ¬ (digits = 0 ∧ 1 < byte.toNat % 128) ∧
        (byte.toNat < 128 ∧ rest = [] ∧ value = byte.toNat % 128 ∨
          128 ≤ byte.toNat ∧ ∃ high, IsCodeWithin digits rest high ∧
            value = byte.toNat % 128 + 128 * high) := by
  have hdigit : byte.toNat % 128 < 128 := Nat.mod_lt _ (by omega)
  have hpow : 128 ^ (digits + 1) = 128 * 128 ^ digits := by rw [Nat.pow_succ, Nat.mul_comm]
  constructor
  · rintro ⟨hclosed, hlength, rfl, hlt⟩
    rw [digitsValue_cons, hpow] at hlt
    rw [digitsValue_cons]
    rcases isClosed_cons.mp hclosed with ⟨hlast, rfl⟩ | ⟨hfirst, hrest⟩
    · refine ⟨?_, .inl ⟨hlast, rfl, rfl⟩⟩
      rintro ⟨rfl, hlarge⟩
      omega
    · have hpos : 0 < rest.length := List.length_pos_iff.mpr hrest.ne_nil
      rw [List.length_cons] at hlength
      refine ⟨by omega, .inr ⟨hfirst, digitsValue rest, ⟨hrest, by omega, rfl, by omega⟩, rfl⟩⟩
  · rintro ⟨hroom, ⟨hlast, rfl, rfl⟩ | ⟨hfirst, high, ⟨hclosed, hlength, rfl, hlt⟩, rfl⟩⟩
    · refine ⟨isClosed_cons.mpr (.inl ⟨hlast, rfl⟩), by simp, by simp [digitsValue], ?_⟩
      rw [hpow]
      rcases Nat.eq_zero_or_pos digits with rfl | hdigits
      · omega
      · have hle : 128 ^ 1 ≤ 128 ^ digits := Nat.pow_le_pow_right (by omega) hdigits
        omega
    · have hpos : 0 < rest.length := List.length_pos_iff.mpr hclosed.ne_nil
      obtain ⟨fewer, rfl⟩ : ∃ fewer, digits = fewer + 1 := ⟨digits - 1, by omega⟩
      refine ⟨isClosed_cons.mpr (.inr ⟨hfirst, hclosed⟩), by simpa using hlength,
        digitsValue_cons byte rest, ?_⟩
      rw [hpow]
      rw [Nat.pow_succ] at hlt ⊢
      omega

variable {bytes : Array UInt8} {digits index value next : Nat}

/-- The reader returns the number of a code that stands in the page. -/
theorem decodeDigits_of_code (page start : Nat) {code : List UInt8}
    (hbytes : HoldsAt bytes index code) (hcode : IsCodeWithin digits code value) :
    decodeDigits bytes page start digits index = .ok (value, index + code.length) := by
  induction digits generalizing index code value with
  | zero =>
    have hpos : 0 < code.length := List.length_pos_iff.mpr hcode.closed.ne_nil
    exact absurd hcode.length_le (by omega)
  | succ digits ih =>
    obtain ⟨byte, rest, rfl⟩ := List.exists_cons_of_ne_nil hcode.closed.ne_nil
    obtain ⟨hbyte, hrest⟩ := HoldsAt.cons_iff.mp hbytes
    obtain ⟨hroom, ⟨hlast, rfl, rfl⟩ | ⟨hfirst, high, hhigh, rfl⟩⟩ := isCodeWithin_cons.mp hcode
    · rw [decodeDigits]
      simp only [hbyte]
      rw [if_neg hroom, if_pos hlast, List.length_singleton]
    · rw [decodeDigits]
      simp only [hbyte, ih hrest hhigh]
      rw [if_neg hroom, if_neg (by omega), List.length_cons, Nat.add_comm rest.length,
        ← Nat.add_assoc]
      rfl

/-- The reader accepts nothing but codes. -/
theorem exists_code_of_decodeDigits {page start : Nat}
    (h : decodeDigits bytes page start digits index = .ok (value, next)) :
    ∃ code, HoldsAt bytes index code ∧ next = index + code.length ∧
      IsCodeWithin digits code value := by
  induction digits generalizing index value next with
  | zero =>
    rw [decodeDigits] at h
    split at h <;> exact nomatch h
  | succ digits ih =>
    rw [decodeDigits] at h
    cases hbyte : bytes[index]? with
    | none =>
      rw [hbyte] at h
      exact nomatch h
    | some byte =>
      simp only [hbyte] at h
      by_cases hroom : digits = 0 ∧ 1 < byte.toNat % 128
      · rw [if_pos hroom] at h
        exact nomatch h
      · rw [if_neg hroom] at h
        by_cases hlast : byte.toNat < 128
        · rw [if_pos hlast] at h
          obtain ⟨rfl, rfl⟩ := Prod.mk.inj (Except.ok.inj h)
          refine ⟨[byte], HoldsAt.cons_iff.mpr ⟨hbyte, .nil _ _⟩, rfl, ?_⟩
          exact isCodeWithin_cons.mpr ⟨hroom, .inl ⟨hlast, rfl, rfl⟩⟩
        · rw [if_neg hlast] at h
          cases hhigh : decodeDigits bytes page start digits (index + 1) with
          | error error =>
            rw [hhigh] at h
            exact nomatch h
          | ok step =>
            obtain ⟨high, after⟩ := step
            rw [hhigh] at h
            obtain ⟨rfl, rfl⟩ := Prod.mk.inj (Except.ok.inj h)
            obtain ⟨code, hcode, rfl, hwithin⟩ := ih hhigh
            refine ⟨byte :: code, HoldsAt.cons_iff.mpr ⟨hbyte, hcode⟩, ?_, ?_⟩
            · rw [List.length_cons]
              omega
            · exact isCodeWithin_cons.mpr ⟨hroom, .inr ⟨by omega, high, hwithin, rfl⟩⟩

/-- With so many digits still to be read, the page ends before the number does. -/
structure RunsOutWithin (digits : Nat) (bytes : Array UInt8) (index : Nat) : Prop where
  open_until_end : ∀ position byte, index ≤ position → bytes[position]? = some byte →
    128 ≤ byte.toNat
  size_le : bytes.size ≤ index + digits
  last_le : ∀ position byte, index ≤ position → position + 1 = index + digits →
    bytes[position]? = some byte → byte.toNat % 128 ≤ 1

theorem runsOutWithin_ten : RunsOutWithin 10 bytes index ↔ RunsOut bytes index := by
  constructor
  · rintro ⟨hopen, hsize, hlast⟩
    exact ⟨hopen, hsize, fun byte ↦ hlast (index + 9) byte (by omega) rfl⟩
  · rintro ⟨hopen, hsize, htenth⟩
    refine ⟨hopen, hsize, fun position byte _ hposition ↦ ?_⟩
    obtain rfl : position = index + 9 := by omega
    exact htenth byte

theorem runsOutWithin_of_size_le (digits : Nat) (h : bytes.size ≤ index) :
    RunsOutWithin digits bytes index where
  open_until_end position byte hle hbyte := by
    rw [Array.getElem?_eq_none (h.trans hle)] at hbyte
    exact nomatch hbyte
  size_le := h.trans (Nat.le_add_right _ _)
  last_le position byte hle _ hbyte := by
    rw [Array.getElem?_eq_none (h.trans hle)] at hbyte
    exact nomatch hbyte

theorem runsOutWithin_succ {byte : UInt8} (hbyte : bytes[index]? = some byte) :
    RunsOutWithin (digits + 1) bytes index ↔
      ¬ (digits = 0 ∧ 1 < byte.toNat % 128) ∧ 128 ≤ byte.toNat ∧
        RunsOutWithin digits bytes (index + 1) := by
  constructor
  · rintro ⟨hopen, hsize, hlast⟩
    refine ⟨?_, hopen index byte le_rfl hbyte, ?_, by omega, ?_⟩
    · rintro ⟨rfl, hlarge⟩
      exact absurd (hlast index byte le_rfl rfl hbyte) (by omega)
    · exact fun position other hle ↦ hopen position other (by omega)
    · exact fun position other hle hposition ↦ hlast position other (by omega) (by omega)
  · rintro ⟨hroom, hfirst, hopen, hsize, hlast⟩
    have hother {position : Nat} {other : UInt8} (hposition : bytes[position]? = some other)
        (hle : index ≤ position) : other = byte ∧ position = index ∨ index + 1 ≤ position := by
      rcases Nat.eq_or_lt_of_le hle with rfl | hlt
      · rw [hbyte] at hposition
        exact .inl ⟨(Option.some.inj hposition).symm, rfl⟩
      · exact .inr hlt
    refine ⟨fun position other hle hposition ↦ ?_, by omega,
      fun position other hle hend hposition ↦ ?_⟩
    · rcases hother hposition hle with ⟨rfl, _⟩ | hlt
      · exact hfirst
      · exact hopen position other hlt hposition
    · rcases hother hposition hle with ⟨rfl, rfl⟩ | hlt
      · omega
      · exact hlast position other hlt (by omega) hposition

/-- A number is reported to end too late exactly if the page runs out before it ends. -/
theorem decodeDigits_eq_endsInsideValue_iff (page start : Nat) :
    decodeDigits bytes page start digits index =
        .error (.endsInsideValue page (max index bytes.size)) ↔
      RunsOutWithin digits bytes index := by
  induction digits generalizing index with
  | zero =>
    rw [decodeDigits]
    by_cases h : index < bytes.size
    · rw [if_pos h]
      exact iff_of_false nofun fun hruns ↦ absurd hruns.size_le (by omega)
    · rw [if_neg h, max_eq_left (not_lt.mp h)]
      exact iff_of_true rfl (runsOutWithin_of_size_le 0 (not_lt.mp h))
  | succ digits ih =>
    rw [decodeDigits]
    cases hbyte : bytes[index]? with
    | none =>
      have hsize : bytes.size ≤ index := Array.getElem?_eq_none_iff.mp hbyte
      rw [max_eq_left hsize]
      exact iff_of_true rfl (runsOutWithin_of_size_le _ hsize)
    | some byte =>
      have hlt : index < bytes.size := (Array.getElem?_eq_some_iff.mp hbyte).1
      rw [runsOutWithin_succ hbyte]
      by_cases hroom : digits = 0 ∧ 1 < byte.toNat % 128
      · simp only [if_pos hroom]
        exact iff_of_false nofun fun h ↦ h.1 hroom
      · by_cases hlast : byte.toNat < 128
        · simp only [if_neg hroom, if_pos hlast]
          exact iff_of_false nofun fun h ↦ absurd h.2.1 (by omega)
        · have hmax : max index bytes.size = max (index + 1) bytes.size := by omega
          simp only [if_neg hroom, if_neg hlast, hmax]
          rw [← ih]
          cases decodeDigits bytes page start digits (index + 1) with
          | error error => simp [bind, Except.bind, hroom, not_lt.mp hlast]
          | ok step => exact iff_of_false nofun fun h ↦ nomatch h.2.2

theorem decodeDigits_error_cases {page start : Nat} {error : DecodeError}
    (h : decodeDigits bytes page start digits index = .error error) :
    error = .valueTooLarge page start ∨ error = .endsInsideValue page (max index bytes.size) := by
  induction digits generalizing index with
  | zero =>
    rw [decodeDigits] at h
    by_cases hlt : index < bytes.size
    · rw [if_pos hlt] at h
      exact .inl (Except.error.inj h).symm
    · rw [if_neg hlt] at h
      rw [max_eq_left (not_lt.mp hlt)]
      exact .inr (Except.error.inj h).symm
  | succ digits ih =>
    rw [decodeDigits] at h
    cases hbyte : bytes[index]? with
    | none =>
      rw [hbyte] at h
      rw [max_eq_left (Array.getElem?_eq_none_iff.mp hbyte)]
      exact .inr (Except.error.inj h).symm
    | some byte =>
      have hlt : index < bytes.size := (Array.getElem?_eq_some_iff.mp hbyte).1
      have hmax : max index bytes.size = max (index + 1) bytes.size := by omega
      simp only [hbyte] at h
      split_ifs at h
      · exact .inl (Except.error.inj h).symm
      · rw [hmax]
        cases hhigh : decodeDigits bytes page start digits (index + 1) with
        | error other =>
          rw [hhigh] at h
          obtain rfl := Except.error.inj h
          exact ih hhigh
        | ok step =>
          rw [hhigh] at h
          exact nomatch h

/-! ## The code that is written -/

theorem size_of_lt (h : value < 128) : size value = 1 := by
  rcases Nat.eq_zero_or_pos value with rfl | hpos
  · rfl
  · have hlog : Nat.log2 value < 7 := (Nat.log2_lt hpos.ne').mpr h
    rw [size]
    omega

theorem size_of_le (h : 128 ≤ value) : size value = size (value / 128) + 1 := by
  have hlog : 7 ≤ Nat.log2 value := (Nat.le_log2 (by omega)).mpr h
  have hdiv : Nat.log2 (value / 128) = Nat.log2 value - 7 := by
    rw [Nat.log2_eq_log_two, Nat.log2_eq_log_two]
    exact Nat.log_div_base_pow 2 value 7
  rw [size, size, hdiv]
  omega

theorem one_le_size (value : Nat) : 1 ≤ size value := by
  rw [size]
  omega

theorem size_le_iff (hdigits : digits ≠ 0) : size value ≤ digits ↔ value < 128 ^ digits := by
  rcases Nat.eq_zero_or_pos value with rfl | hpos
  · exact iff_of_true (Nat.one_le_iff_ne_zero.mpr hdigits) (Nat.pow_pos (by omega))
  · have hlog : Nat.log2 value < 7 * digits ↔ value < 2 ^ (7 * digits) := Nat.log2_lt hpos.ne'
    rw [Nat.pow_mul] at hlog
    rw [size, ← hlog]
    omega

theorem length_encode (value : Nat) : (encode value).length = size value := by
  fun_induction encode value with
  | case1 value h => rw [List.length_singleton, size_of_lt h]
  | case2 value h ih => rw [List.length_cons, ih, size_of_le (not_lt.mp h)]

theorem isClosed_encode (value : Nat) : IsClosed (encode value) := by
  fun_induction encode value with
  | case1 value h =>
    rw [isClosed_cons, toNat_toUInt8_of_lt (by omega)]
    exact .inl ⟨h, rfl⟩
  | case2 value h ih =>
    rw [isClosed_cons, toNat_toUInt8_of_lt (by omega)]
    exact .inr ⟨by omega, ih⟩

theorem digitsValue_encode (value : Nat) : digitsValue (encode value) = value := by
  fun_induction encode value with
  | case1 value h =>
    rw [digitsValue_cons, toNat_toUInt8_of_lt (by omega), Nat.mod_eq_of_lt h]
    rfl
  | case2 value h ih =>
    rw [digitsValue_cons, toNat_toUInt8_of_lt (by omega), ih]
    omega

/-- What is written for a 64-bit number is a code of it. -/
theorem isCode_encode (hvalue : value < 2 ^ 64) : IsCode (encode value) value where
  closed := isClosed_encode value
  length_le := by
    rw [length_encode, size_le_iff (by omega)]
    omega
  value_eq := digitsValue_encode value
  value_lt := hvalue

/-- No code of a number is shorter than the one that is written. -/
theorem size_le_length {code : List UInt8} (hclosed : IsClosed code)
    (hvalue : digitsValue code = value) : size value ≤ code.length := by
  rw [size_le_iff (List.length_pos_iff.mpr hclosed.ne_nil).ne', ← hvalue]
  exact digitsValue_lt code

/-- A shortest code is the one that is written. -/
theorem eq_encode_of_length_eq {code : List UInt8} (hclosed : IsClosed code)
    (hvalue : digitsValue code = value) (hlength : size value = code.length) :
    code = encode value := by
  induction code generalizing value with
  | nil => exact absurd rfl hclosed.ne_nil
  | cons byte rest ih =>
    rw [digitsValue_cons] at hvalue
    rw [List.length_cons] at hlength
    have hbyte : byte.toNat < 256 := byte.toNat_lt
    rcases isClosed_cons.mp hclosed with ⟨hlast, rfl⟩ | ⟨hfirst, hrest⟩
    · have heq : value = byte.toNat := by
        rw [← hvalue, Nat.mod_eq_of_lt hlast]
        rfl
      rw [encode_of_lt (by omega), heq]
      exact congrArg (fun byte ↦ [byte]) UInt8.ofNat_toNat.symm
    · have hpos : 0 < rest.length := List.length_pos_iff.mpr hrest.ne_nil
      have hlarge : 128 ≤ value := by
        by_contra hsmall
        rw [size_of_lt (not_le.mp hsmall)] at hlength
        omega
      have hhigh : digitsValue rest = value / 128 := by omega
      have hlow : value % 128 + 128 = byte.toNat := by omega
      rw [size_of_le hlarge] at hlength
      rw [encode_of_le hlarge, hlow, ← ih hrest hhigh (by omega)]
      exact congrArg (· :: rest) UInt8.ofNat_toNat.symm

/-! ## Reading and writing -/

/-- A 64-bit number is read back wherever its bytes stand. -/
theorem decode_encode (page : Nat) (hvalue : value < 2 ^ 64)
    (hbytes : HoldsAt bytes index (encode value)) :
    decode bytes page index = .ok (value, index + (encode value).length) :=
  decodeDigits_of_code page index hbytes (isCodeWithin_ten.mpr (isCode_encode hvalue))

theorem decode_eq_ok_iff (page : Nat) :
    decode bytes page index = .ok (value, next) ↔
      ∃ code, HoldsAt bytes index code ∧ next = index + code.length ∧ IsCode code value := by
  constructor
  · intro h
    obtain ⟨code, hcode, hnext, hwithin⟩ := exists_code_of_decodeDigits h
    exact ⟨code, hcode, hnext, isCodeWithin_ten.mp hwithin⟩
  · rintro ⟨code, hcode, rfl, hisCode⟩
    exact decodeDigits_of_code page index hcode (isCodeWithin_ten.mpr hisCode)

theorem decode_eq_endsInsideValue_iff (page : Nat) :
    decode bytes page index = .error (.endsInsideValue page (max index bytes.size)) ↔
      RunsOut bytes index :=
  (decodeDigits_eq_endsInsideValue_iff page index).trans runsOutWithin_ten

theorem decode_error_cases {page : Nat} {error : DecodeError}
    (h : decode bytes page index = .error error) :
    error = .valueTooLarge page index ∨ error = .endsInsideValue page (max index bytes.size) :=
  decodeDigits_error_cases h

/-- A number is written with as many bytes as its size says, at most ten, and is read back from
between any other bytes. Reading accepts exactly the codes of 64-bit numbers, of which the shortest
is the one that is written. Where there is no code, the page has run out before the number does, or
the number is too large. -/
theorem codes_are_read_exactly :
    (∀ (value : UInt64) (before after : Array UInt8) (page : Nat),
      (encode value.toNat).length = size value.toNat ∧ 1 ≤ size value.toNat ∧
        size value.toNat ≤ 10 ∧
        decode (before ++ (encode value.toNat).toArray ++ after) page before.size =
          .ok (value.toNat, before.size + size value.toNat)) ∧
    ∀ (bytes : Array UInt8) (page index : Nat),
      (∀ value next, decode bytes page index = .ok (value, next) ↔
        ∃ code, HoldsAt bytes index code ∧ next = index + code.length ∧ IsCode code value) ∧
      (∀ code value, IsCode code value →
        size value ≤ code.length ∧ (size value = code.length ↔ code = encode value)) ∧
      (decode bytes page index = .error (.endsInsideValue page (max index bytes.size)) ↔
        RunsOut bytes index) ∧
      ((∀ code value, HoldsAt bytes index code → ¬ IsCode code value) → ¬ RunsOut bytes index →
        decode bytes page index = .error (.valueTooLarge page index)) := by
  refine ⟨fun value before after page ↦ ?_, fun bytes page index ↦ ⟨fun value next ↦ ?_,
    fun code value hcode ↦ ?_, ?_, fun hnone hnot ↦ ?_⟩⟩
  · have hcode := isCode_encode value.toNat_lt
    have hholds : HoldsAt (before ++ (encode value.toNat).toArray ++ after) before.size
        (encode value.toNat) :=
      .mono (by simp) (HoldsAt.append_size before (encode value.toNat).toArray)
    have hread := decode_encode page value.toNat_lt hholds
    rw [length_encode] at hread
    refine ⟨length_encode _, one_le_size _, ?_, hread⟩
    rw [← length_encode]
    exact hcode.length_le
  · exact decode_eq_ok_iff page
  · refine ⟨size_le_length hcode.closed hcode.value_eq, fun hlength ↦ ?_, ?_⟩
    · exact eq_encode_of_length_eq hcode.closed hcode.value_eq hlength
    · rintro rfl
      exact (length_encode value).symm
  · exact decode_eq_endsInsideValue_iff page
  · cases hread : decode bytes page index with
    | ok step =>
      obtain ⟨code, hcode, _, hisCode⟩ := (decode_eq_ok_iff page).mp hread
      exact absurd hisCode (hnone code step.1 hcode)
    | error error =>
      rcases decode_error_cases hread with rfl | rfl
      · rfl
      · exact absurd ((decode_eq_endsInsideValue_iff page).mp hread) hnot

end PackedGraph.VarInt
