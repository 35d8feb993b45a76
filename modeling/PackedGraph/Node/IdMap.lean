import PackedGraph.Fault
import PackedGraph.Node.Label
import Std.Data.HashMap
import Std.Data.TreeMap

/-!
# Node ids

Nodes come with arbitrary 64-bit ids and are numbered `0, 1, 2, …` in the order in which their ids
are first seen. The map also holds the nodes that carry each label, in increasing order, and the
labels in the order of their names.
-/

namespace PackedGraph

structure IdMap where
  nodes : Std.HashMap UInt64 Nat
  originals : Array UInt64
  members : Std.TreeMap String (Array Nat)

namespace IdMap

def nodeCount (ids : IdMap) : Nat := ids.originals.size

/-- The node with an original id. -/
def node? (ids : IdMap) (original : UInt64) : Option Nat := ids.nodes[original]?

def contains (ids : IdMap) (original : UInt64) : Bool := ids.nodes.contains original

/-- The original id of a node. -/
def original (ids : IdMap) (node : Nat) : Except Fault UInt64 :=
  match ids.originals[node]? with
  | some original => .ok original
  | none => .error .outOfBounds

/-- The labels that some node carries, in order. -/
def labels (ids : IdMap) : List String := ids.members.keys

/-- The nodes with a label, in increasing order. -/
def nodesWithLabel (ids : IdMap) (label : String) : Option (Array Nat) := ids.members[label]?

/-- Looks for a node among `count` elements of an increasing array from `start` on, and halves their
number until a single one is left. -/
def bisect (members : Array Nat) (node start count : Nat) : Bool :=
  if count ≤ 1 then members[start]? == some node
  else
    let half := count / 2
    match members[start + half]? with
    | none => false
    | some middle =>
      bisect members node (if node < middle then start else start + half) (count - half)
termination_by count

def hasLabel (ids : IdMap) (node : Nat) (label : String) : Bool :=
  (ids.nodesWithLabel label).any fun members ↦ bisect members node 0 members.size

def nodeLabels (ids : IdMap) (node : Nat) : List String :=
  ids.labels.filter fun label ↦ ids.hasLabel node label

end IdMap

/-- An id map under construction. The members of a label are in the order in which they were added,
and may be repeated. -/
structure IdMapBuilder where
  nodes : Std.HashMap UInt64 Nat
  originals : Array UInt64
  members : Std.TreeMap String (Array Nat)

namespace IdMapBuilder

def empty : IdMapBuilder := ⟨∅, #[], ∅⟩

def nodeCount (builder : IdMapBuilder) : Nat := builder.originals.size

def node? (builder : IdMapBuilder) (original : UInt64) : Option Nat := builder.nodes[original]?

/-- The node with an original id, which is the next free one if the id was never seen before. -/
def register (builder : IdMapBuilder) (original : UInt64) : IdMapBuilder × Nat :=
  match builder.node? original with
  | some node => (builder, node)
  | none =>
    let next := builder.nodeCount
    ({ builder with
        nodes := builder.nodes.insert original next
        originals := builder.originals.push original }, next)

def addLabel (builder : IdMapBuilder) (node : Nat) (label : Label) : IdMapBuilder :=
  let members := builder.members.getD label.name #[]
  { builder with members := builder.members.insert label.name (members.push node) }

def addLabels (builder : IdMapBuilder) (node : Nat) (labels : List Label) : IdMapBuilder :=
  labels.foldl (addLabel · node) builder

/-- The elements of a sorted list, each of them once. -/
def dropRepeats : List Nat → List Nat
  | [] => []
  | [a] => [a]
  | a :: b :: rest => if a = b then dropRepeats (b :: rest) else a :: dropRepeats (b :: rest)

def sortMembers (members : Array Nat) : Array Nat :=
  (dropRepeats (members.toList.mergeSort (· ≤ ·))).toArray

def build (builder : IdMapBuilder) : IdMap :=
  ⟨builder.nodes, builder.originals, builder.members.map fun _ members ↦ sortMembers members⟩

end IdMapBuilder

end PackedGraph
