/-!
# Random numbers

The generator xoshiro256++ has a state of four 64-bit words. The words are filled from a seed with
the generator SplitMix64.
-/

namespace PackedGraph

structure Generator where
  s0 : UInt64
  s1 : UInt64
  s2 : UInt64
  s3 : UInt64
deriving DecidableEq, Inhabited

namespace Generator

/-- The constant by which SplitMix64 moves its state. -/
def increment : UInt64 := 0x9e3779b97f4a7c15

/-- The output of SplitMix64 in a state. -/
def scramble (state : UInt64) : UInt64 :=
  let z := (state ^^^ (state >>> 30)) * 0xbf58476d1ce4e5b9
  let z := (z ^^^ (z >>> 27)) * 0x94d049bb133111eb
  z ^^^ (z >>> 31)

def ofSeed (seed : UInt64) : Generator where
  s0 := scramble (seed + increment)
  s1 := scramble (seed + increment * 2)
  s2 := scramble (seed + increment * 3)
  s3 := scramble (seed + increment * 4)

def rotateLeft (word : UInt64) (count : UInt64) : UInt64 :=
  (word <<< count) ||| (word >>> (64 - count))

/-- The next 64-bit number. -/
def next (g : Generator) : UInt64 × Generator :=
  let result := rotateLeft (g.s0 + g.s3) 23 + g.s0
  let s2 := g.s2 ^^^ g.s0
  let s3 := g.s3 ^^^ g.s1
  (result, ⟨g.s0 ^^^ s3, g.s1 ^^^ s2, s2 ^^^ (g.s1 <<< 17), rotateLeft s3 45⟩)

/-- The next 32-bit number: the upper half of the next 64-bit number. -/
def nextHalf (g : Generator) : Nat × Generator :=
  let (word, g) := g.next
  (word.toNat / UInt32.size, g)

/-- A number from `low` to `high`, both included, by widening multiplication. When the low half of
the product leaves room for a carry, a second number decides on it. -/
def draw (g : Generator) (low high : Nat) : Nat × Generator :=
  let range := high - low + 1
  let (word, g) := g.nextHalf
  let product := word * range
  let upper := product / UInt32.size
  let lower := product % UInt32.size
  if UInt32.size - range < lower then
    let (word, g) := g.nextHalf
    let carry := if UInt32.size ≤ lower + word * range / UInt32.size then 1 else 0
    (low + upper + carry, g)
  else (low + upper, g)

end Generator

end PackedGraph
