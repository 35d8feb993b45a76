import PackedGraph.Build.Compress
import PackedGraph.Store.Holding

/-!
# Graph stores

A store owns a compressed graph with one block of values for each declared key. Views are opened on
it with at most one of the keys, as long as the blocks they need have not been released.
-/

namespace PackedGraph

structure Store where
  ids : IdMap
  columns : Std.TreeMap String Column
  keys : List String
  relationshipCount : Nat
  orientation : Orientation
  blockTable : Nat

/-- Puts a compressed graph into a store, and charges its blocks to an account. -/
def CompressedGraph.toStore (graph : CompressedGraph) (account : Account) :
    StateM Memory Store := do
  let charge ← Memory.charge account graph.topology.sizeInBytes
  let topology := { graph.topology with charge := some charge }
  let values ← graph.values.mapM fun (_, table) ↦ do
    let charge ← Memory.charge account table.sizeInBytes
    return some { table with charge := some charge }
  let blockTable ← Memory.openTable (some topology) values.toArray
  return {
    ids := graph.ids
    columns := graph.columns
    keys := graph.values.map Prod.fst
    relationshipCount := topology.elementCount
    orientation := topology.orientation
    blockTable }

namespace Store

def nodeCount (store : Store) : Nat := store.ids.nodeCount

/-- The bytes of the blocks that have not been released. -/
def sizeInBytes (store : Store) (memory : Memory) : Nat :=
  match memory.tables[store.blockTable]? with
  | none => 0
  | some table =>
    table.topology.elim 0 Topology.sizeInBytes +
      (table.values.map fun values ↦ values.elim 0 ValueTable.sizeInBytes).foldl (· + ·) 0

/-- The topology and the values of a key, with the position of the values. -/
def blocks (store : Store) (memory : Memory) (key : Option String) :
    Except ViewError (Topology × Option ValueTable × Nat) := do
  let table := memory.tables[store.blockTable]?
  let some topology := table.bind BlockTable.topology | throw .topologyReleased
  match key with
  | none => return (topology, none, 0)
  | some key =>
    let some position := store.keys.findIdx? (· == key) | throw (.unknownKey key)
    let some values := (table.bind (·.values[position]?)).join | throw (.valuesReleased key)
    return (topology, some values, position)

/-- Opens a view with the values of a key, or without values. -/
def view (store : Store) (key : Option String) : ExceptT ViewError (StateM Memory) View := do
  let (topology, values, position) ← MonadExcept.ofExcept (store.blocks (← get) key)
  let view ← MonadExcept.ofExcept (Except.mapError (fun fault ↦ .read (.fault fault)) (do
    let relationships ← Relationships.ofBlocks topology values
    PackedView.ofBlocks store.ids store.columns relationships store.blockTable position))
  view.hold
  return .packed view

def drop (store : Store) : Memory.Update Unit := Memory.dropTable store.blockTable

end Store

end PackedGraph
