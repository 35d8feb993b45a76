import PackedGraph.Block.Error

/-!
# Variable-length numbers

A number is written in base 128, least significant digit first, one digit a byte. The high bit of a
byte is set when another byte follows, so small numbers take a single byte and 64-bit numbers at
most ten.
-/

namespace PackedGraph.VarInt

/-- The bytes of a number. -/
def encode (value : Nat) : List UInt8 :=
  if value < 128 then [value.toUInt8]
  else (value % 128 + 128).toUInt8 :: encode (value / 128)
termination_by value

/-- The number of bytes of a number: one for every seven significant bits, and at least one. -/
def size (value : Nat) : Nat := (Nat.log2 value + 7) / 7

/-- Reads the digits from `index` on, at most `digits` of them. The last of the ten digits of a
64-bit number has room for a single bit. Returns the number and the position after it. -/
def decodeDigits (bytes : Array UInt8) (page start : Nat) :
    (digits index : Nat) → Except DecodeError (Nat × Nat)
  | 0, index =>
    if index < bytes.size then .error (.valueTooLarge page start)
    else .error (.endsInsideValue page index)
  | digits + 1, index =>
    match bytes[index]? with
    | none => .error (.endsInsideValue page index)
    | some byte =>
      let digit := byte.toNat % 128
      if digits = 0 ∧ 1 < digit then .error (.valueTooLarge page start)
      else if byte.toNat < 128 then .ok (digit, index + 1)
      else do
        let (rest, next) ← decodeDigits bytes page start digits (index + 1)
        return (digit + 128 * rest, next)

/-- Reads the 64-bit number at `index`. The page number only serves to report failures. -/
def decode (bytes : Array UInt8) (page index : Nat) : Except DecodeError (Nat × Nat) :=
  decodeDigits bytes page index 10 index

end PackedGraph.VarInt
