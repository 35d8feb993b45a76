import PackedGraph.Node.Column
import PackedGraph.Node.IdMap
import PackedGraph.View.Cursors

/-!
# Graph views

A view is what a reader of a graph holds. A packed view reads compressed blocks with cursors of its
own, which stay where the last enumeration left them. A filtered view shows some of the nodes of
another view under new numbers.
-/

namespace PackedGraph

structure TopologyReader where
  topology : Topology
  cursors : ListCursors

structure ValueReader where
  table : ValueTable
  cursor : ValueCursor
  /-- The position of the values in the block table of the store. -/
  position : Nat

structure PackedView where
  ids : IdMap
  columns : Std.TreeMap String Column
  /-- The topology, until the view releases it. -/
  topology : Option TopologyReader
  /-- The values of the relationship property, if there is one, until the view releases them. -/
  values : Option ValueReader
  relationshipCount : Nat
  isUndirected : Bool
  hasValues : Bool
  canRelease : Bool
  /-- The number of the block table that the view shares with its store. -/
  blockTable : Nat

namespace PackedView

/-- A view on completed blocks, which must agree on the number of nodes. -/
def ofBlocks (ids : IdMap) (columns : Std.TreeMap String Column) (relationships : Relationships)
    (blockTable position : Nat) : Except Fault PackedView :=
  let topology := relationships.topology
  if topology.nodeCount ≠ ids.nodeCount then .error .nodeCount
  else
    match columns.toList.find? fun entry ↦ entry.2.size != ids.nodeCount with
    | some (key, _) => .error (.columnLength key)
    | none =>
      .ok {
        ids, columns, blockTable
        topology := some ⟨topology, .exhausted⟩
        values := relationships.values.map fun table ↦ ⟨table, .exhausted, position⟩
        relationshipCount := topology.elementCount
        isUndirected := topology.orientation == .undirected
        hasValues := relationships.values.isSome
        canRelease := true }

/-- The topology and the values of a view. -/
def relationships (view : PackedView) : Except Fault Relationships :=
  match view.topology with
  | some reader => .ok ⟨reader.topology, view.values.map ValueReader.table⟩
  | none => .error .topologyReleased

/-- A view on the same blocks with cursors of its own. -/
def fresh (view : PackedView) : PackedView :=
  { view with
    topology := view.topology.map fun reader ↦ { reader with cursors := .exhausted }
    values := view.values.map fun reader ↦ { reader with cursor := .exhausted } }

end PackedView

/-- Which nodes of a view pass a filter, and what is known about them. -/
structure Filter where
  /-- The node of the underlying view behind each filtered node. -/
  toRoot : Array Nat
  /-- The filtered node of each node of the underlying view that passes. -/
  toFiltered : Array (Option Nat)
  degrees : Array Nat
  relationshipCount : Nat
  columns : Std.TreeMap String Column

def Filter.root (filter : Filter) (node : Nat) : Except Fault Nat :=
  match filter.toRoot[node]? with
  | some root => .ok root
  | none => .error .outOfBounds

def Filter.filtered (filter : Filter) (root : Nat) : Except Fault (Option Nat) :=
  match filter.toFiltered[root]? with
  | some node => .ok node
  | none => .error .outOfBounds

inductive View where
  | packed (view : PackedView)
  | filtered (inner : View) (filter : Filter)

namespace View

/-- The packed view below all filters. -/
def base : View → PackedView
  | packed view => view
  | filtered inner _ => inner.base

/-- Replaces the packed view below all filters. -/
def mapBase (f : PackedView → PackedView) : View → View
  | packed view => packed (f view)
  | filtered inner filter => filtered (inner.mapBase f) filter

/-- A view on the same data with cursors of its own. -/
def fresh (view : View) : View := view.mapBase PackedView.fresh

def nodeCount : View → Nat
  | packed view => view.ids.nodeCount
  | filtered _ filter => filter.toRoot.size

def relationshipCount : View → Nat
  | packed view => view.relationshipCount
  | filtered _ filter => filter.relationshipCount

def isUndirected (view : View) : Bool := view.base.isUndirected

def hasValues (view : View) : Bool := view.base.hasValues

def hasTopology (view : View) : Bool := view.base.topology.isSome

def degree : View → Nat → Except Fault Nat
  | packed view, node =>
    match view.topology with
    | some reader => reader.topology.index.degree node
    | none => .error .topologyReleased
  | filtered inner filter, node =>
    if inner.hasTopology then
      match filter.degrees[node]? with
      | some degree => .ok degree
      | none => .error .outOfBounds
    else .error .topologyReleased

def columns : View → Std.TreeMap String Column
  | packed view => view.columns
  | filtered _ filter => filter.columns

def column? (view : View) (key : String) : Option Column := view.columns[key]?

/-- The labels of a view: those of the view below all filters. -/
def labels (view : View) : List String := view.base.ids.labels

def hasLabel : View → Nat → String → Except Fault Bool
  | packed view, node, label => .ok (view.ids.hasLabel node label)
  | filtered inner filter, node, label => do
    let root ← filter.root node
    inner.hasLabel root label

/-- The node with an original id. -/
def node? : View → UInt64 → Option Nat
  | packed view, original => view.ids.node? original
  | filtered inner filter, original => (inner.node? original).bind (filter.toFiltered[·]?.join)

def contains (view : View) (original : UInt64) : Bool := (view.node? original).isSome

/-- The original id of a node. -/
def original : View → Nat → Except Fault UInt64
  | packed view, node => view.ids.original node
  | filtered inner filter, node => do
    let root ← filter.root node
    inner.original root

/-- The kind of a view, as its messages call it. -/
def kind : View → String
  | packed _ => "vcgraph::graphs::csr_graph::CsrGraph"
  | filtered inner _ => "vcgraph::graphs::filtered_graph::NodeFilteredGraph<" ++ inner.kind ++ ">"

end View

end PackedGraph
