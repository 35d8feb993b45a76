import PackedGraph.Iteration.Partition
import PackedGraph.View.Enumeration
import PackedGraph.View.Error

/-!
# Queries on views

Questions that are answered by reading through the list of a node, and questions on all nodes.
-/

namespace PackedGraph.View

/-- The targets of all nodes, up to the first failure. -/
def allRelationships (view : View) : View × Except ReadError (List (List Nat)) :=
  go view (List.range view.nodeCount)
where
  go (view : View) : List Nat → View × Except ReadError (List (List Nat))
    | [] => (view, .ok [])
    | node :: nodes =>
      let visit := view.relationships node none
      match visit.result with
      | .error error => (visit.reader, .error error)
      | .ok targets =>
        let (view, rest) := go visit.reader nodes
        (view, rest.map (targets :: ·))

/-- The targets and values of all nodes, up to the first failure. -/
def allRelationshipsWithValues (view : View) (fallback : ValueBits) :
    View × Except ReadError (List (List (Nat × ValueBits))) :=
  go view (List.range view.nodeCount)
where
  go (view : View) : List Nat → View × Except ReadError (List (List (Nat × ValueBits)))
    | [] => (view, .ok [])
    | node :: nodes =>
      let visit := view.relationshipsWithValues node fallback none
      match visit.result with
      | .error error => (visit.reader, .error error)
      | .ok pairs =>
        let (view, rest) := go visit.reader nodes
        (view, rest.map (pairs :: ·))

/-- The value of the first relationship between two nodes, or `fallback` if there is none. -/
def relationshipValue (view : View) (source target : Nat) (fallback : ValueBits) :
    View × Except ViewError ValueBits :=
  if view.hasValues then
    let visit := view.visitWithValues source fallback (fun found other value ↦
      let found := if other = target then value else found
      if other < target then .more found else .enough found) fallback
    (visit.reader, visit.result.mapError .read)
  else (view, .error (.unsupported "relationship_property" view.kind))

/-- Whether there is a relationship between two nodes. -/
def exists? (view : View) (source target : Nat) : View × Except ReadError Bool :=
  let visit := view.visit source (fun _ other ↦
    let found := other == target
    if other < target then .more found else .enough found) false
  (visit.reader, visit.result)

/-- The target at a position in the list of a node. -/
def target? (view : View) (source position : Nat) : View × Except ReadError (Option Nat) :=
  let visit := view.visit source (fun (state : Nat × Option Nat) target ↦
    if state.1 = position then .enough (state.1, some target) else .more (state.1 + 1, none))
    (0, none)
  (visit.reader, visit.result.map Prod.snd)

def degrees (view : View) : Except Fault (List Nat) :=
  (List.range view.nodeCount).mapM view.degree

def originals (view : View) : Except Fault (List UInt64) :=
  (List.range view.nodeCount).mapM view.original

/-- The nodes of the view, up to the `limit`-th one. -/
def nodes (view : View) (limit : Option Nat) : List Nat :=
  List.range (match limit with
    | some (limit + 1) => min (limit + 1) view.nodeCount
    | _ => view.nodeCount)

/-- The nodes of the view in ranges of the given size, of which the last one may be shorter. -/
def batches (view : View) (size : Nat) : Except Fault (List NodeRange) :=
  if size = 0 then .error .emptyBatches else .ok (NodeRange.chunks view.nodeCount size)

end PackedGraph.View
