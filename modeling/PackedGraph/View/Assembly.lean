import PackedGraph.Build.Error
import PackedGraph.View.Basic

/-!
# Assembling a view by hand

A view can be put together from separate parts, which need not agree with each other: the index
may point anywhere, and the bytes of a list may be no encoding at all. Only the checks of the
constructors apply.
-/

namespace PackedGraph

structure ColumnPart where
  key : String
  type : ValueType
  values : List (Option PropertyValue)

structure ValuesPart where
  values : List (Array ValueBits)
  pageShift : Nat
  /-- What replaces the addresses of the block. -/
  addresses : Option (Array Nat)
  elementCount : Option Nat
  defaultValue : ValueBits

structure ViewParts where
  originals : List UInt64
  labels : List (Nat × List String)
  columns : List ColumnPart
  lists : List TargetList
  pageShift : Nat
  /-- What replaces the addresses of the index. -/
  addresses : Option (Array Nat)
  /-- What replaces the degrees of the index. -/
  degrees : Option (Array Nat)
  orientation : Orientation
  values : Option ValuesPart

namespace ViewParts

def ids (parts : ViewParts) : Except InvalidLabel IdMap := do
  let registered := parts.originals.foldl (fun ids original ↦ (ids.register original).1)
    IdMapBuilder.empty
  let labelled ← parts.labels.foldlM (fun ids (node, names) ↦ do
    let labels ← Label.ofNames names
    return ids.addLabels node labels) registered
  return labelled.build

def column (part : ColumnPart) : Except Fault Column :=
  part.values.zipIdx.foldlM (fun column (value, node) ↦ do
    let some value := value | return column
    let some column ← column.set node value | throw (.columnType part.key)
    return column) (Column.blank part.type part.values.length)

def columnMap (parts : ViewParts) : Except Fault (Std.TreeMap String Column) :=
  parts.columns.foldlM (fun columns part ↦ return columns.insert part.key (← column part)) ∅

def topology (parts : ViewParts) : Except Fault Topology := do
  let shift ← PageShift.ofNat parts.pageShift
  let builder ← parts.lists.foldlM TargetBlockBuilder.addList (.new shift)
  let (block, built) := builder.build
  let addresses := parts.addresses.getD (built.slots.map Slot.address)
  let degrees := parts.degrees.getD (built.slots.map Slot.degree)
  let isReplaced := parts.addresses.isSome || parts.degrees.isSome
  let index ← if isReplaced then TargetIndex.ofParts addresses degrees else pure built
  return {
    block, index
    elementCount := index.degreeSum
    orientation := parts.orientation
    charge := none }

def valueTable (part : ValuesPart) (topology : Topology) : Except Fault ValueTable := do
  let shift ← PageShift.ofNat part.pageShift
  let builder := part.values.foldl ValueBlockBuilder.add (.new shift)
  let (block, addresses) := builder.build
  return {
    block
    addresses := part.addresses.getD addresses
    elementCount := part.elementCount.getD topology.elementCount
    defaultValue := part.defaultValue
    charge := none }

/-- Puts the parts together to a view on a block table. -/
def assemble (parts : ViewParts) (blockTable : Nat) : Except BuildError PackedView := do
  let ids ← parts.ids.mapError .invalidLabel
  Except.mapError .fault do
    let columns ← parts.columnMap
    let topology ← parts.topology
    let values ← parts.values.mapM (valueTable · topology)
    let relationships ← Relationships.ofBlocks topology values
    PackedView.ofBlocks ids columns relationships blockTable 0

end ViewParts

end PackedGraph
