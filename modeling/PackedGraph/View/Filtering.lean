import PackedGraph.View.Enumeration
import PackedGraph.View.Error

/-!
# Filtering by label

The nodes that carry at least one of some labels keep their order under their new numbers, so the
lists of the filtered view stay sorted.
-/

namespace PackedGraph

/-- The positions of the elements of a list without repeats. -/
def positions (nodes : List Nat) (size : Nat) : Array (Option Nat) :=
  nodes.zipIdx.foldl (fun table entry ↦ table.setIfInBounds entry.1 (some entry.2))
    (.replicate size none)

namespace View

/-- The nodes with at least one of the given labels. -/
def nodesWithLabels (view : View) (labels : List String) : Except Fault (List Nat) :=
  (List.range view.nodeCount).filterM fun node ↦ labels.anyM fun label ↦ view.hasLabel node label

/-- The numbers of targets of some nodes that a filter keeps. -/
def keptDegrees (view : View) (toFiltered : Array (Option Nat)) :
    List Nat → Except ReadError (View × List Nat)
  | [] => .ok (view, [])
  | node :: nodes => do
    let visit := view.visit node (fun degree target ↦
      match toFiltered[target]? with
      | some kept => .more (if kept.isSome then degree + 1 else degree)
      | none => .broken .outOfBounds) 0
    let degree ← visit.result
    let (view, degrees) ← keptDegrees visit.reader toFiltered nodes
    return (view, degree :: degrees)

/-- The columns of a view for some of its nodes. -/
def selectColumns (view : View) (nodes : Array Nat) :
    Except Fault (Std.TreeMap String Column) :=
  view.columns.toList.foldlM (fun columns (key, column) ↦ do
    let selected ← column.select nodes
    return columns.insert key selected) ∅

/-- Keeps the nodes with at least one of the given labels, each of which some node of the graph has
to carry. -/
def filter (view : View) (labels : List String) : Except ViewError View :=
  match labels.find? fun label ↦ !view.labels.contains label with
  | some label => .error (.unknownLabel label)
  | none => do
    let roots ← (view.nodesWithLabels labels).mapError fun fault ↦ .read (.fault fault)
    let toFiltered := positions roots view.nodeCount
    let (view, degrees) ← (view.keptDegrees toFiltered roots).mapError .read
    let columns ← (view.selectColumns roots.toArray).mapError fun fault ↦ .read (.fault fault)
    return filtered view {
      toRoot := roots.toArray, toFiltered, columns
      degrees := degrees.toArray
      relationshipCount := degrees.foldl (· + ·) 0 }

end View

end PackedGraph
