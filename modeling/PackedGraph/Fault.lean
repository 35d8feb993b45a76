import PackedGraph.Text.Quoted

/-!
# Broken contracts

A `Fault` says that a caller broke a rule that every caller must keep, so that the operation gave
no answer at all. It is told apart from the errors an operation reports about the data it was
given.
-/

namespace PackedGraph

inductive Fault where
  /-- A position at or after the end of a sequence. -/
  | outOfBounds
  /-- A counter past the largest 64-bit number. -/
  | counterOverflow
  /-- A base-2 logarithm of the page size outside `[1, 30]`. -/
  | pageShift (shift : Nat)
  /-- A target smaller than the one before it. -/
  | unsortedTargets (target previous : Nat)
  /-- A degree of 2³² or more. -/
  | degreeTooLarge (degree : Nat)
  /-- An index with a different number of addresses and degrees, or of addresses and nodes. -/
  | unequalLengths
  /-- An index in which exactly one of the address and the degree of a node is zero. -/
  | addressOfEmptyList
  | cursorExhausted
  /-- Relationship values in a number different from the number of relationships. -/
  | valueCount
  /-- A topology and an id map of different sizes. -/
  | nodeCount
  | columnLength (key : String)
  /-- A value of a type different from the type of its column. -/
  | columnType (key : String)
  | topologyReleased
  | valuesReleased
  /-- Relationship property keys declared after the first relationship. -/
  | keysDeclaredLate
  /-- More bytes taken from a counter than it holds. -/
  | untrackedBytes (bytes tracked : Nat)
  | emptyBatches
  | zeroDivisor
  /-- An array cut into pieces of length zero. -/
  | emptyChunks
  /-- Elements copied to a slice of another length. -/
  | copiedLength (copied slice : Nat)
deriving DecidableEq, Inhabited

namespace Fault

/-- The text of a fault, where it has one. -/
def message : Fault → Option String
  | outOfBounds | counterOverflow => none
  | pageShift shift => s!"The page shift must be in [1 . . 30], got {shift}"
  | unsortedTargets target previous =>
    s!"Adjacency lists must be sorted ({target} follows {previous})"
  | degreeTooLarge degree => s!"Degree {degree} does not fit in 32 bits"
  | unequalLengths => unequal ""
  | addressOfEmptyList => "Empty lists must have address zero"
  | cursorExhausted => "The cursor is exhausted"
  | valueCount => unequal ": The property must have a value for every relationship"
  | nodeCount => unequal ": The topology and the id map have different numbers of nodes"
  | columnLength key => unequal (": Node property " ++ Text.quoted key ++ " has the wrong length")
  | columnType key => "Node property " ++ Text.quoted key ++ " got a value of another type"
  | topologyReleased => "The topology of this graph has been released"
  | valuesReleased => "The relationship property of this graph has been released"
  | keysDeclaredLate => "Relationship properties must be declared before adding relationships"
  | untrackedBytes bytes tracked =>
    s!"Released {bytes} bytes, but only {tracked} were tracked"
  | emptyBatches => "The batch size must be positive"
  | zeroDivisor => "attempt to divide by zero"
  | emptyChunks => "chunk size must be non-zero"
  | copiedLength copied slice =>
    s!"source slice length ({copied}) does not match destination slice length ({slice})"
where
  unequal (text : String) : String := "assertion \x60left == right\x60 failed" ++ text

end Fault

end PackedGraph
