import PackedGraph.View.Basic
import PackedGraph.View.Error

/-!
# Triangles

A triangle `a < b < c` is found from its smallest node. The larger neighbours of `a` are decoded
once, and the list of each of them is then merged against the neighbours after it. Nodes of a
degree above a limit are left out.
-/

namespace PackedGraph

structure TriangleFinder where
  topology : Topology
  maxDegree : Nat
  cursor : TargetCursor

structure Triangle where
  a : Nat
  b : Nat
  c : Nat
deriving DecidableEq, Inhabited

/-- The triangle finder of a view. -/
def View.triangles (view : View) (maxDegree : Nat) : Except ViewError TriangleFinder :=
  match view with
  | .filtered _ _ => .error (.unsupported "Intersection" "NodeFilteredGraph")
  | .packed view =>
    if view.isUndirected then
      match view.topology with
      | some reader => .ok ⟨reader.topology, maxDegree, .exhausted⟩
      | none => .error (.read (.fault .topologyReleased))
    else .error (.unsupported "Intersection on a directed graph" "CsrGraph")

namespace TriangleFinder

def isSmall (finder : TriangleFinder) (node : Nat) : Except ReadError Bool :=
  match finder.topology.index.degree node with
  | .ok degree => .ok (degree ≤ finder.maxDegree)
  | .error fault => .error (.fault fault)

/-- Reads up to `count` targets and keeps the different ones that are at least `bound` and of small
degree, in reverse order. -/
def pivotUpTo (finder : TriangleFinder) (bound : Nat) :
    (count : Nat) → TargetCursor → List Nat → TargetCursor × Except ReadError (List Nat)
  | 0, cursor, pivot => (cursor, .ok pivot)
  | count + 1, cursor, pivot =>
    match cursor.advance finder.topology.block bound with
    | (cursor, .error error) => (cursor, .error error)
    | (cursor, .ok none) => (cursor, .ok pivot)
    | (cursor, .ok (some target)) =>
      if pivot.head? = some target then pivotUpTo finder bound count cursor pivot
      else
        match finder.isSmall target with
        | .error error => (cursor, .error error)
        | .ok true => pivotUpTo finder bound count cursor (target :: pivot)
        | .ok false => pivotUpTo finder bound count cursor pivot

/-- The different neighbours of a node that are larger and of small degree. -/
def pivot (finder : TriangleFinder) (a : Nat) : TargetCursor × Except ReadError (List Nat) :=
  match finder.topology.moveTo finder.cursor a with
  | .error error => (finder.cursor, .error error)
  | .ok cursor =>
    let (cursor, pivot) := finder.pivotUpTo (a + 1) cursor.remaining cursor []
    (cursor, pivot.map List.reverse)

/-- Merges the list under a cursor with candidates for the third node, and returns the common
ones. -/
def merge (block : Pages UInt8) (cursor : TargetCursor) (candidates : List Nat) :
    TargetCursor × List Nat × Except ReadError Unit :=
  match candidates with
  | [] => (cursor, [], .ok ())
  | candidate :: rest =>
    match cursor.advance block candidate with
    | (cursor, .error error) => (cursor, [], .error error)
    | (cursor, .ok none) => (cursor, [], .ok ())
    | (cursor, .ok (some target)) =>
      if target = candidate then
        let (cursor, common, outcome) := merge block cursor rest
        (cursor, target :: common, outcome)
      else
        match h : rest.dropWhile (· < target) with
        | [] => (cursor, [], .ok ())
        | next :: later =>
          have : later.length < rest.length := by
            have := (List.dropWhile_sublist (· < target) (l := rest)).length_le
            simp only [h, List.length_cons] at this
            omega
          if target = next then
            let (cursor, common, outcome) := merge block cursor later
            (cursor, target :: common, outcome)
          else merge block cursor (next :: later)
termination_by candidates.length

/-- Finds the triangles of a node with the nodes of a pivot. -/
def closeUp (topology : Topology) (a : Nat) (cursor : TargetCursor) :
    List Nat → TargetCursor × List Triangle × Except ReadError Unit
  | [] => (cursor, [], .ok ())
  | b :: candidates =>
    match topology.moveTo cursor b with
    | .error error => (cursor, [], .error error)
    | .ok cursor =>
      match merge topology.block cursor candidates with
      | (cursor, common, .error error) => (cursor, common.map (Triangle.mk a b), .error error)
      | (cursor, common, .ok ()) =>
        let (cursor, found, outcome) := closeUp topology a cursor candidates
        (cursor, common.map (Triangle.mk a b) ++ found, outcome)

/-- The triangles with a given smallest node, up to the first failure. -/
def find (finder : TriangleFinder) (a : Nat) :
    TriangleFinder × List Triangle × Except ReadError Unit :=
  match finder.isSmall a with
  | .error error => (finder, [], .error error)
  | .ok false => (finder, [], .ok ())
  | .ok true =>
    match finder.pivot a with
    | (cursor, .error error) => ({ finder with cursor }, [], .error error)
    | (cursor, .ok pivot) =>
      let (cursor, found, outcome) := closeUp finder.topology a cursor pivot
      ({ finder with cursor }, found, outcome)

end TriangleFinder

end PackedGraph
