import PackedGraph.Build.Aggregation
import PackedGraph.Build.Error
import PackedGraph.Memory.Ledger
import PackedGraph.Node.IdMap
import PackedGraph.Relation.Topology

/-!
# Graph builders

A builder collects nodes with their labels and properties, and arcs between them with one value for
each declared key. A call that is rejected leaves the builder as it was.
-/

namespace PackedGraph

/-- A relationship as it was added, with one value for each declared key. -/
structure Arc where
  source : Nat
  target : Nat
  values : Array ValueBits

/-- The values given to a node property so far, in the order in which they were given. -/
structure PropertyRecord where
  type : ValueType
  values : Array (Nat × PropertyValue)

structure GraphBuilder where
  orientation : Orientation
  aggregation : Aggregation
  keys : List String
  defaultValue : ValueBits
  pageShift : Nat
  /-- Where the bytes of the compressed blocks are charged to. -/
  account : Account
  ids : IdMapBuilder
  properties : Std.TreeMap String PropertyRecord
  arcs : Array Arc

namespace GraphBuilder

/-- A builder of natural orientation that keeps all relationships, in pages of 2¹⁸ elements. -/
def new : GraphBuilder where
  orientation := .natural
  aggregation := .keepAll
  keys := []
  defaultValue := .notANumber
  pageShift := 18
  account := none
  ids := .empty
  properties := ∅
  arcs := #[]

def nodeCount (builder : GraphBuilder) : Nat := builder.ids.nodeCount

/-- A call on a builder that may be rejected. -/
abbrev Call (α : Type) := ExceptT BuildError (StateM GraphBuilder) α

/-- Declares the keys of the relationship properties, which is possible until the first arc. -/
def declareKeys (keys : List String) : Call Unit := do
  if (← get).arcs.isEmpty then modify fun builder ↦ { builder with keys }
  else throw (.fault .keysDeclaredLate)

/-- The node with an original id, which is a new one if the id was never seen before. -/
def register (original : UInt64) : Call Nat :=
  modifyGet fun builder ↦
    let (ids, node) := builder.ids.register original
    (node, { builder with ids })

def readLabels (names : List String) : Call (List Label) :=
  MonadExcept.ofExcept ((Label.ofNames names).mapError .invalidLabel)

def addLabels (node : Nat) (labels : List Label) : Call Unit :=
  modify fun builder ↦ { builder with ids := builder.ids.addLabels node labels }

/-- Adds a node, or further labels to a node that is already there. -/
def addNode (original : UInt64) (names : List String) : Call Nat := do
  let labels ← readLabels names
  let node ← register original
  addLabels node labels
  return node

/-- Adds nodes with the same labels, up to the first that is rejected. -/
def addNodes (originals : List UInt64) (names : List String) : Call (List Nat) :=
  originals.mapM (addNode · names)

/-- Checks that values agree with the types of their keys. The type of a key is that of the first
value for it, be it an earlier one of the same call. -/
def checkTypes (recorded : Std.TreeMap String PropertyRecord) (seen : List (String × ValueType)) :
    List (String × PropertyValue) → Except BuildError Unit
  | [] => .ok ()
  | (key, value) :: rest =>
    match (recorded[key]?.map PropertyRecord.type).or (seen.lookup key) with
    | none => checkTypes recorded ((key, value.type) :: seen) rest
    | some expected =>
      if expected = value.type then checkTypes recorded seen rest
      else .error (.propertyType key expected value.type)

def recordValue (node : Nat) (key : String) (value : PropertyValue) : Call Unit :=
  modify fun builder ↦
    let record := builder.properties.getD key ⟨value.type, #[]⟩
    { builder with
      properties := builder.properties.insert key
        { record with values := record.values.push (node, value) } }

/-- Adds a node with property values and labels. -/
def addNodeWithProperties (original : UInt64) (properties : List (String × PropertyValue))
    (names : List String) : Call Nat := do
  let labels ← readLabels names
  MonadExcept.ofExcept (checkTypes (← get).properties [] properties)
  let node ← register original
  addLabels node labels
  properties.forM fun (key, value) ↦ recordValue node key value
  return node

def checkNode (node : Nat) : Call Unit := do
  let nodeCount := (← get).nodeCount
  if nodeCount ≤ node then throw (.unknownNode node nodeCount)

def checkValueCount (values : Array ValueBits) : Call Unit := do
  let expected := (← get).keys.length
  if values.size ≠ expected then throw (.valueCount expected values.size)

/-- Adds an arc between two nodes. -/
def addArc (source target : Nat) (values : Array ValueBits) : Call Unit := do
  checkNode source
  checkNode target
  checkValueCount values
  modify fun builder ↦ { builder with arcs := builder.arcs.push ⟨source, target, values⟩ }

/-- Adds arcs, up to the first that is rejected. -/
def addArcs (arcs : List Arc) : Call Unit :=
  arcs.forM fun arc ↦ addArc arc.source arc.target arc.values

/-- Adds an arc between the nodes of two original ids, which are registered where necessary. -/
def addArcByOriginals (source target : UInt64) (values : Array ValueBits) : Call Unit := do
  checkValueCount values
  let source ← register source
  let target ← register target
  addArc source target values

end GraphBuilder

end PackedGraph
