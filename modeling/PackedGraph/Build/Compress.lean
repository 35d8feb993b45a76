import PackedGraph.Build.Builder

/-!
# Compressing a graph

The arcs are laid out according to the orientation and sorted by source and target, such that
parallel ones stay in the order in which they were added. They are then cut into the lists of the
nodes, parallel arcs are merged, and the lists and their values are packed into blocks.
-/

namespace PackedGraph

/-- The result of compressing a graph, before its bytes are charged to an account. -/
structure CompressedGraph where
  ids : IdMap
  columns : Std.TreeMap String Column
  topology : Topology
  /-- The values of each key, in the order of declaration. -/
  values : List (String × ValueTable)

namespace Arc

def reversed (arc : Arc) : Arc := ⟨arc.target, arc.source, arc.values⟩

/-- The order by source, and by target where the sources are equal. -/
def le (a b : Arc) : Bool := a.source < b.source || a.source == b.source && a.target ≤ b.target

end Arc

/-- The list entries that stand for some arcs, in the order of the arcs. -/
def Orientation.layOut (orientation : Orientation) (arcs : List Arc) : List Arc :=
  match orientation with
  | natural => arcs
  | reverse => arcs.map Arc.reversed
  | undirected => arcs.flatMap fun arc ↦ [arc, arc.reversed]

/-- Cuts arcs that are sorted by source into the lists of `count` nodes, beginning with `node`. -/
def cutBySource (node : Nat) : (count : Nat) → List Arc → List (List Arc)
  | 0, _ => []
  | count + 1, arcs =>
    arcs.takeWhile (·.source == node) ::
      cutBySource (node + 1) count (arcs.dropWhile (·.source == node))

/-- A target with the arcs to it. -/
structure Run where
  target : Nat
  arcs : List Arc

/-- Groups the neighbouring arcs that have the same target. -/
def Run.group : List Arc → List Run
  | [] => []
  | arc :: arcs =>
    match group arcs with
    | [] => [⟨arc.target, [arc]⟩]
    | run :: runs =>
      if run.target = arc.target then ⟨run.target, arc :: run.arcs⟩ :: runs
      else ⟨arc.target, [arc]⟩ :: run :: runs

/-- The runs of arcs that become one relationship each. -/
def Aggregation.runs (aggregation : Aggregation) (arcs : List Arc) : List Run :=
  match aggregation with
  | keepAll => arcs.map fun arc ↦ ⟨arc.target, [arc]⟩
  | _ => Run.group arcs

/-- The value of an arc for the key at a position. -/
def Arc.value (arc : Arc) (key : Nat) : Except Fault ValueBits :=
  match arc.values[key]? with
  | some value => .ok value
  | none => .error .outOfBounds

/-- The values of a list for the key at a position. -/
def mergedValues (aggregation : Aggregation) (runs : List Run) (key : Nat) :
    Except Fault (List ValueBits) :=
  runs.mapM fun run ↦ return aggregation.merge (← run.arcs.mapM (·.value key))

namespace GraphBuilder

def checkKeys (seen : List String) : List String → Except ConfigError Unit
  | [] => .ok ()
  | key :: keys =>
    if key.isEmpty then .error .emptyKey
    else if seen.contains key then .error (.repeatedKey key)
    else checkKeys (key :: seen) keys

/-- Checks the settings of a builder, and returns its page size. -/
def checkConfig (builder : GraphBuilder) : Except ConfigError PageShift := do
  let shift ← (PageShift.ofNat builder.pageShift).mapError fun _ ↦ .pageShift builder.pageShift
  checkKeys [] builder.keys
  return shift

/-- The column of a property, where later values replace earlier ones. -/
def buildColumn (size : Nat) (key : String) (record : PropertyRecord) : Except Fault Column :=
  record.values.foldlM (fun column (node, value) ↦ do
    match ← column.set node value with
    | some column => return column
    | none => throw (.columnType key)) (Column.blank record.type size)

def buildColumns (builder : GraphBuilder) (size : Nat) :
    Except Fault (Std.TreeMap String Column) :=
  builder.properties.toList.foldlM (fun columns (key, record) ↦ do
    let column ← buildColumn size key record
    return columns.insert key column) ∅

/-- The runs of each node. -/
def nodeRuns (builder : GraphBuilder) (nodeCount : Nat) : Except Fault (List (List Run)) :=
  let entries := (builder.orientation.layOut builder.arcs.toList).mergeSort Arc.le
  if entries.all (·.source < nodeCount) then
    .ok ((cutBySource 0 nodeCount entries).map builder.aggregation.runs)
  else .error .outOfBounds

/-- Packs the targets of the nodes from `node` on. -/
def packTargets (block : TargetBlockBuilder) (node : Nat) :
    List (List Run) → Except BuildError TargetBlockBuilder
  | [] => .ok block
  | runs :: rest => do
    if UInt32.size ≤ runs.length then throw (.degreeTooLarge node runs.length)
    let block ← (block.add (runs.map Run.target)).mapError .fault
    packTargets block (node + 1) rest

/-- Packs the values of all nodes for the key at a position. -/
def packValues (aggregation : Aggregation) (block : ValueBlockBuilder) (key : Nat)
    (lists : List (List Run)) : Except Fault ValueBlockBuilder :=
  lists.foldlM (fun block runs ↦ do
    let values ← mergedValues aggregation runs key
    return block.add values.toArray) block

/-- Compresses what a builder has collected. -/
def compress (builder : GraphBuilder) : Except BuildError CompressedGraph := do
  let shift ← builder.checkConfig.mapError .config
  let ids := builder.ids.build
  let columns ← (builder.buildColumns ids.nodeCount).mapError .fault
  let lists ← (builder.nodeRuns ids.nodeCount).mapError .fault
  let (block, index) := (← packTargets (.new shift) 0 lists).build
  let elementCount := index.degreeSum
  let topology := { block, index, elementCount, orientation := builder.orientation, charge := none }
  let values ← builder.keys.zipIdx.mapM fun (key, position) ↦ do
    let packed ← (packValues builder.aggregation (.new shift) position lists).mapError .fault
    let (block, addresses) := packed.build
    return (key, {
      block, addresses, elementCount, defaultValue := builder.defaultValue, charge := none })
  return { ids, columns, topology, values }

end GraphBuilder

end PackedGraph
