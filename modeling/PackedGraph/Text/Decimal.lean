/-!
# Shortest decimal notation

A finite binary number is `m · 2 ^ q`. Among the decimal numbers that round back to it, the
shortest one has the fewest significant digits, and of those with equally many it is the nearest,
the larger one when two are equally near. It is written without an exponent and without a trailing
zero after the point.
-/

namespace PackedGraph.Text

/-- A finite binary number, `significand · 2 ^ exponent`, with the gap to its lower neighbour
halved when it is the least number of its binade. -/
structure Binary where
  significand : Nat
  exponent : Int
  narrowBelow : Bool

/-- The number with the given sign-free bits of the 64-bit format. -/
def Binary.ofBits (bits : Nat) : Binary :=
  let fraction : Nat := bits % Nat.pow 2 52
  let biased : Nat := bits / Nat.pow 2 52 % Nat.pow 2 11
  if biased = 0 then ⟨fraction, -1074, false⟩
  else ⟨Nat.pow 2 52 + fraction, (biased : Int) - 1075, fraction == 0 && biased != 1⟩

/-- A ratio of two natural numbers equal to `2 ^ a / 10 ^ b`. -/
def scale (a b : Int) : Nat × Nat :=
  (Nat.pow 2 a.toNat * Nat.pow 10 (-b).toNat, Nat.pow 2 (-a).toNat * Nat.pow 10 b.toNat)

/-- The exponent of the leading decimal digit of a positive number. -/
def Binary.leadingExponent (x : Binary) : Int :=
  let (up, down) := scale x.exponent 0
  let whole := x.significand * up / down
  if whole ≠ 0 then (Nat.toDigits 10 whole).length - 1
  else
    let places := (List.range 400).find? fun j ↦ down ≤ x.significand * up * Nat.pow 10 j
    Int.negOfNat (places.getD 0)

/-- The nearer of the two multiples of `10 ^ k` around a number, among those that round to it. -/
def Binary.onGrid (x : Binary) (k : Int) : Option Nat :=
  let (up, down) := scale (x.exponent - 2) k
  let value := 4 * x.significand * up
  let low := (4 * x.significand - if x.narrowBelow then 1 else 2) * up
  let high := (4 * x.significand + 2) * up
  let closed := x.significand % 2 == 0
  let roundsBack (c : Nat) : Bool :=
    if closed then low ≤ c * down && c * down ≤ high else low < c * down && c * down < high
  let below := value / down
  match roundsBack below, roundsBack (below + 1) with
  | true, true =>
    some (if value - below * down < (below + 1) * down - value then below else below + 1)
  | true, false => some below
  | false, true => some (below + 1)
  | false, false => none

/-- The digits and the exponent of the last digit of the shortest decimal notation. -/
def Binary.shortest (x : Binary) : Nat × Int :=
  let lead := x.leadingExponent
  ((List.range 17).findSome? fun (d : Nat) ↦
    (x.onGrid (lead - d)).map fun c ↦ (c, lead - d)).getD (x.significand, 0)

/-- The positional notation of `digits · 10 ^ exponent`. -/
def positional (digits : Nat) (exponent : Int) : String :=
  let places := (-exponent).toNat
  let whole := digits * Nat.pow 10 exponent.toNat / Nat.pow 10 places
  let part := (Nat.toDigits 10 (digits % Nat.pow 10 places)).leftpad places '0'
  let part := (part.reverse.dropWhile (· == '0')).reverse
  if places = 0 || part.isEmpty then toString whole
  else toString whole ++ "." ++ String.ofList part

/-- The shortest decimal notation of a floating-point number. -/
def decimal (x : Float) : String :=
  let bits := x.toBits.toNat
  let sign := if Nat.pow 2 63 ≤ bits then "-" else ""
  let bits := bits % Nat.pow 2 63
  if x.isNaN then "NaN"
  else if bits = 0x7ff0000000000000 then sign ++ "inf"
  else if bits = 0 then sign ++ "0"
  else
    let (digits, exponent) := (Binary.ofBits bits).shortest
    sign ++ positional digits exponent

end PackedGraph.Text
