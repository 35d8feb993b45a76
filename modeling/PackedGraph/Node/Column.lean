import PackedGraph.Fault

/-!
# Node properties

A property has a type, and a column with a value of that type for every node. The least 64-bit
integer, a value that is not a number, and an empty array stand for a missing value.
-/

namespace PackedGraph

inductive ValueType where
  | long
  | double
  | doubleArray
deriving DecidableEq, Inhabited

def ValueType.name : ValueType → String
  | long => "long"
  | double => "double"
  | doubleArray => "double array"

/-- The value of a property at a single node. -/
inductive PropertyValue where
  | long (value : Int)
  | double (value : Float)
  | doubleArray (values : Array Float)

def PropertyValue.type : PropertyValue → ValueType
  | long _ => .long
  | double _ => .double
  | doubleArray _ => .doubleArray

inductive Column where
  | long (values : Array Int)
  | double (values : Array Float)
  | doubleArray (values : Array (Array Float))

namespace Column

/-- The integer that stands for a missing one. -/
def missingLong : Int := Int64.minValue.toInt

def missingDouble : Float := 0.0 / 0.0

/-- A column without values. -/
def blank (type : ValueType) (size : Nat) : Column :=
  match type with
  | .long => long (.replicate size missingLong)
  | .double => double (.replicate size missingDouble)
  | .doubleArray => doubleArray (.replicate size #[])

def type : Column → ValueType
  | long _ => .long
  | double _ => .double
  | doubleArray _ => .doubleArray

def size : Column → Nat
  | long values => values.size
  | double values => values.size
  | doubleArray values => values.size

/-- The element at a position. -/
def element {α : Type} (values : Array α) (node : Nat) : Except Fault α :=
  match values[node]? with
  | some value => .ok value
  | none => .error .outOfBounds

/-- The integer of a node, in a column of integers. -/
def longValue (column : Column) (node : Nat) : Except Fault (Option Int) :=
  match column with
  | long values => do
    let value ← element values node
    return if value = missingLong then none else some value
  | _ => .ok none

/-- The number of a node, in a column of integers or of numbers. -/
def doubleValue (column : Column) (node : Nat) : Except Fault (Option Float) :=
  match column with
  | double values => do
    let value ← element values node
    return if value.isNaN then none else some value
  | long _ => do
    let value ← column.longValue node
    return value.map Float.ofInt
  | _ => .ok none

/-- The array of a node, in a column of arrays; a number counts as an array of length one. -/
def arrayValue (column : Column) (node : Nat) : Except Fault (Option (Array Float)) :=
  match column with
  | doubleArray values => do
    let value ← element values node
    return if value.isEmpty then none else some value
  | double values => do
    let value ← element values node
    return if value.isNaN then none else some #[value]
  | long _ => .ok none

def hasValue (column : Column) (node : Nat) : Except Fault Bool :=
  match column with
  | long values => (element values node).map (· != missingLong)
  | double values => (element values node).map (!·.isNaN)
  | doubleArray values => (element values node).map (!·.isEmpty)

/-- Replaces the element at a position. -/
def replace {α : Type} (values : Array α) (node : Nat) (value : α) : Except Fault (Array α) :=
  if node < values.size then .ok (values.setIfInBounds node value) else .error .outOfBounds

/-- Gives a node a value, or returns nothing when the value is of another type. -/
def set (column : Column) (node : Nat) (value : PropertyValue) : Except Fault (Option Column) :=
  match column, value with
  | long values, .long value => (replace values node value).map (some ∘ long)
  | double values, .double value => (replace values node value).map (some ∘ double)
  | doubleArray values, .doubleArray value =>
    (replace values node value).map (some ∘ doubleArray)
  | _, _ => .ok none

/-- The column of the given nodes, in the given order. -/
def select (column : Column) (nodes : Array Nat) : Except Fault Column :=
  match column with
  | long values => (nodes.mapM (element values)).map long
  | double values => (nodes.mapM (element values)).map double
  | doubleArray values => (nodes.mapM (element values)).map doubleArray

end Column

end PackedGraph
