/-!
# Arithmetic of the algorithms

The algorithms that add up weights or coordinates are written for any type with the operations
below. They run on floating-point numbers, where the order of additions matters, and they can be
studied in exact arithmetic.
-/

namespace PackedGraph

class Scalar (R : Type) where
  /-- Where running totals start. -/
  zero : R
  /-- The sum of no numbers. -/
  emptySum : R
  add : R → R → R
  sub : R → R → R
  mul : R → R → R
  div : R → R → R
  ofNat : Nat → R
  sqrt : R → R
  lt : R → R → Bool
  /-- Whether a number is less than infinity. -/
  isBelowInfinity : R → Bool

/-- Floating-point numbers. A sum of no numbers is negative zero, which is neutral. -/
instance : Scalar Float where
  zero := 0.0
  emptySum := -0.0
  add := (· + ·)
  sub := (· - ·)
  mul := (· * ·)
  div := (· / ·)
  ofNat := Float.ofNat
  sqrt := Float.sqrt
  lt a b := a < b
  isBelowInfinity a := a < 1.0 / 0.0

namespace Scalar

variable {R : Type} [Scalar R]

/-- The sum of some numbers from left to right. -/
def total (values : List R) : R := values.foldl add emptySum

end Scalar

end PackedGraph
