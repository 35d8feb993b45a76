import PackedGraph.Node.Column

/-!
# Slices of arrays

Points of one dimension stand one after another in an array, and are read and written by slices. A
slice that does not lie in its array is a fault.
-/

namespace PackedGraph.Slices

variable {α β : Type}

/-- The elements of a slice. -/
def read (values : Array α) (start length : Nat) : Except Fault (List α) :=
  if start + length ≤ values.size then .ok (values.extract start (start + length)).toList
  else .error .outOfBounds

/-- Combines the elements of a slice with those of a list, as far as both go. -/
def combine (f : α → β → α) (values : Array α) (start length : Nat) (others : List β) :
    Except Fault (Array α) :=
  if start + length ≤ values.size then
    .ok (((others.take length).zipIdx start).foldl (fun values (other, i) ↦
      values.modify i (f · other)) values)
  else .error .outOfBounds

/-- Replaces the elements of a slice by those of a list of the same length. -/
def copy (values : Array α) (start length : Nat) (others : List α) : Except Fault (Array α) :=
  if others.length = length then combine (fun _ other ↦ other) values start length others
  else .error (.copiedLength others.length length)

/-- An array in pieces of the same length, except that the last one may be shorter. -/
def chunks (values : Array α) (length : Nat) : Except Fault (List (List α)) :=
  if length = 0 then .error .emptyChunks
  else .ok ((List.range ((values.size + length - 1) / length)).map fun i ↦
    (values.extract (i * length) (i * length + length)).toList)

def quotient (a b : Nat) : Except Fault Nat := if b = 0 then .error .zeroDivisor else .ok (a / b)

end PackedGraph.Slices
