import PackedGraph.Block.ValueBlock

/-!
# Merging parallel relationships

Relationships with the same source and target are either all kept, or merged into one whose value
is computed from theirs, in the order in which they were added. A value that is chosen among them
keeps its bits. A sum that is not a number has the bits of the preferred one, whatever the sign and
payload of its terms.
-/

namespace PackedGraph

inductive Aggregation where
  | keepAll
  | single
  | sum
  | min
  | max
  | count
deriving DecidableEq, Inhabited

namespace Aggregation

def name : Aggregation → String
  | keepAll => "none"
  | single => "single"
  | sum => "sum"
  | min => "min"
  | max => "max"
  | count => "count"

/-- The smaller of two values, or the other one when one of them is not a number. Of two equal
ones it is the second, so of zeros the sign of the last one is kept. -/
def smaller (a b : ValueBits) : ValueBits :=
  if (Float.ofBits b).isNaN || Float.ofBits a < Float.ofBits b then a else b

/-- The larger of two values, or the other one when one of them is not a number. Of two equal
ones it is the second. -/
def larger (a b : ValueBits) : ValueBits :=
  if (Float.ofBits b).isNaN || Float.ofBits b < Float.ofBits a then a else b

/-- The sum of some values from left to right. An empty sum is negative zero, which is neutral. -/
def total (values : List ValueBits) : ValueBits :=
  ((values.map Float.ofBits).foldl (· + ·) (-0.0)).toBits

/-- The value of a relationship that stands for several ones with the given values. -/
def merge (aggregation : Aggregation) (values : List ValueBits) : ValueBits :=
  match aggregation with
  | keepAll | single => values.headD .notANumber
  | sum => total values
  | min => values.foldl smaller (Float.toBits (1.0 / 0.0))
  | max => values.foldl larger (Float.toBits (-1.0 / 0.0))
  | count => (Float.ofNat values.length).toBits

end Aggregation

end PackedGraph
