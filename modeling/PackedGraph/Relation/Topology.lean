import PackedGraph.Block.ValueBlock

/-!
# Stored relationships

The topology of a graph is a block of target lists with its index. A relationship property adds a
value to every relationship, in a block of its own.
-/

namespace PackedGraph

/-- Which end of a relationship keeps it in its list. -/
inductive Orientation where
  | natural
  | reverse
  | undirected
deriving DecidableEq, Inhabited

def Orientation.name : Orientation → String
  | natural => "natural"
  | reverse => "reverse"
  | undirected => "undirected"

structure Topology where
  block : Pages UInt8
  index : TargetIndex
  elementCount : Nat
  orientation : Orientation
  /-- The charge of the bytes of the topology, if they are accounted for. -/
  charge : Option Nat

namespace Topology

def nodeCount (topology : Topology) : Nat := topology.index.size

def sizeInBytes (topology : Topology) : Nat :=
  topology.block.sizeInBytes + topology.index.sizeInBytes

/-- Moves a cursor to the start of the list of a node. -/
def moveTo (topology : Topology) (cursor : TargetCursor) (node : Nat) :
    Except ReadError TargetCursor :=
  match topology.index.slot node with
  | .error fault => .error (.fault fault)
  | .ok slot => (cursor.moveTo topology.block slot.address slot.degree).mapError .decode

end Topology

/-- The values of a relationship property. -/
structure ValueTable where
  block : Pages ValueBits
  addresses : Array Nat
  elementCount : Nat
  /-- The value of a relationship that was added without one. -/
  defaultValue : ValueBits
  /-- The charge of the bytes of the values, if they are accounted for. -/
  charge : Option Nat

namespace ValueTable

def sizeInBytes (table : ValueTable) : Nat := table.block.sizeInBytes + table.addresses.size * 8

/-- Moves a cursor to the values of a node, of which there must be `degree`. -/
def moveTo (table : ValueTable) (cursor : ValueCursor) (node degree : Nat) :
    Except ReadError ValueCursor :=
  match table.addresses[node]? with
  | none => .error (.fault .outOfBounds)
  | some address => (cursor.moveTo table.block address degree).mapError .decode

end ValueTable

/-- A topology with at most one relationship property. -/
structure Relationships where
  topology : Topology
  values : Option ValueTable

/-- Bundles a topology with the values of a property, which must have the same size. -/
def Relationships.ofBlocks (topology : Topology) (values : Option ValueTable) :
    Except Fault Relationships :=
  match values with
  | none => .ok ⟨topology, none⟩
  | some table =>
    if table.elementCount ≠ topology.elementCount then .error .valueCount
    else if table.addresses.size ≠ topology.nodeCount then .error .unequalLengths
    else .ok ⟨topology, some table⟩

end PackedGraph
