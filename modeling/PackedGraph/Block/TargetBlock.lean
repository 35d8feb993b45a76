import PackedGraph.Block.Gap
import PackedGraph.Block.Pages

/-!
# Blocks of target lists

The target lists of the nodes, gap-encoded and packed into pages, come with an index that gives the
address and the degree of each node. A node without targets has address zero and degree zero.
-/

namespace PackedGraph

structure Slot where
  address : Nat
  degree : Nat
deriving DecidableEq, Inhabited

structure TargetIndex where
  slots : Array Slot

namespace TargetIndex

/-- Pairs addresses with degrees, which must agree on the nodes without targets. -/
def ofParts (addresses degrees : Array Nat) : Except Fault TargetIndex :=
  if addresses.size ≠ degrees.size then .error .unequalLengths
  else
    let slots := addresses.zipWith Slot.mk degrees
    if slots.all fun slot ↦ (slot.address == 0) == (slot.degree == 0) then .ok ⟨slots⟩
    else .error .addressOfEmptyList

def size (index : TargetIndex) : Nat := index.slots.size

def slot (index : TargetIndex) (node : Nat) : Except Fault Slot :=
  match index.slots[node]? with
  | some slot => .ok slot
  | none => .error .outOfBounds

def degree (index : TargetIndex) (node : Nat) : Except Fault Nat :=
  (index.slot node).map Slot.degree

def degreeSum (index : TargetIndex) : Nat := (index.slots.map Slot.degree).foldl (· + ·) 0

/-- Eight bytes for each address and four for each degree. -/
def sizeInBytes (index : TargetIndex) : Nat := index.size * 8 + index.size * 4

end TargetIndex

/-- The list of a node as it is handed to a builder: plain, or already encoded. -/
inductive TargetList where
  | plain (targets : List Nat)
  | encoded (bytes : Array UInt8) (degree : Nat)

structure TargetBlockBuilder where
  pages : PagesBuilder UInt8
  slots : Array Slot

namespace TargetBlockBuilder

def new (shift : PageShift) : TargetBlockBuilder := ⟨.new shift, #[]⟩

/-- Adds the encoded list of the next node. -/
def addEncoded (builder : TargetBlockBuilder) (bytes : Array UInt8) (degree : Nat) :
    Except Fault TargetBlockBuilder :=
  if UInt32.size ≤ degree then .error (.degreeTooLarge degree)
  else if degree = 0 then .ok { builder with slots := builder.slots.push ⟨0, 0⟩ }
  else
    let (pages, address) := builder.pages.push bytes
    .ok ⟨pages, builder.slots.push ⟨address, degree⟩⟩

/-- Adds the list of the next node. -/
def add (builder : TargetBlockBuilder) (targets : List Nat) : Except Fault TargetBlockBuilder :=
  match Gap.append #[] targets with
  | (bytes, .ok _) => builder.addEncoded bytes targets.length
  | (_, .error fault) => .error fault

def addList (builder : TargetBlockBuilder) : TargetList → Except Fault TargetBlockBuilder
  | .plain targets => builder.add targets
  | .encoded bytes degree => builder.addEncoded bytes degree

def build (builder : TargetBlockBuilder) : Pages UInt8 × TargetIndex :=
  (builder.pages.build, ⟨builder.slots⟩)

end TargetBlockBuilder

end PackedGraph
