import PackedGraph.Iteration.Partition
import PackedGraph.View.Enumeration

/-!
# Shared breadth-first visits

Up to 64 visits of a graph share one pass over its relationships. Each source of a visit has a
bit, and each node has masks of the sources that have seen it, that reach it at the current depth,
and that reach it at the next depth. The masks are used again for the next group of sources.
-/

namespace PackedGraph

/-- The number of sources that share a visit. -/
def sourcesPerVisit : Nat := 64

/-- The number of one bits of a mask. -/
def onesOf (mask : UInt64) : Nat := (List.range 64).countP fun bit ↦ mask.toNat.testBit bit

structure SharedVisit where
  /-- The sources that have seen each node. -/
  seen : Array UInt64
  /-- The sources that reach each node of the frontier at the current depth. -/
  visit : Array UInt64
  /-- The sources that reach each candidate at the next depth, for the first time or again. -/
  next : Array UInt64
  frontier : List Nat
  candidates : List Nat
  /-- The nodes that some source has seen. -/
  reached : List Nat
deriving DecidableEq, Inhabited

/-- A node is at some distance from some of the sources. -/
structure Arrival where
  node : Nat
  depth : Nat
  sources : Nat
deriving DecidableEq, Inhabited

namespace SharedVisit

def blank : SharedVisit := ⟨#[], #[], #[], [], [], []⟩

/-- A mask of a node, which is empty unless another one is stored. -/
def maskOf (masks : Array UInt64) (node : Nat) : UInt64 := masks.getD node 0

def resizeMasks (masks : Array UInt64) (size : Nat) : Array UInt64 :=
  masks.take size ++ Array.replicate (size - masks.size) 0

/-- Makes room for a number of nodes. -/
def resize (state : SharedVisit) (size : Nat) : SharedVisit :=
  { state with
    seen := resizeMasks state.seen size
    visit := resizeMasks state.visit size
    next := resizeMasks state.next size }

/-- Forgets the last group of sources, and starts from the sources of the next one. -/
def start (state : SharedVisit) (sources : List Nat) : SharedVisit :=
  let seen := state.reached.foldl (fun seen node ↦ seen.setIfInBounds node 0) state.seen
  let mark (masks : Array UInt64) : Array UInt64 :=
    sources.zipIdx.foldl (fun masks (source, bit) ↦
      masks.setIfInBounds source (1 <<< UInt64.ofNat bit)) masks
  { state with
    seen := mark seen
    visit := mark state.visit
    frontier := state.frontier ++ sources
    reached := sources }

/-- Passes the sources of a node on to a target. The candidates are collected in reverse order. -/
def passOn (mask : UInt64) (state : Array UInt64 × List Nat) (target : Nat) :
    Response (Array UInt64 × List Nat) :=
  match state.1[target]? with
  | none => .broken .outOfBounds
  | some old =>
    let candidates := if old = 0 then target :: state.2 else state.2
    .more (state.1.setIfInBounds target (old ||| mask), candidates)

/-- Passes the sources of all nodes of the frontier on. -/
def expand (view : View) (state : SharedVisit) :
    List Nat → View × SharedVisit × Except ReadError Unit
  | [] => (view, { state with candidates := state.candidates.reverse }, .ok ())
  | node :: nodes =>
    let mask := maskOf state.visit node
    let state := { state with visit := state.visit.setIfInBounds node 0 }
    let visit := view.visit node (passOn mask) (state.next, state.candidates)
    let state := { state with next := visit.state.1, candidates := visit.state.2 }
    match visit.outcome with
    | .error error => (visit.reader, state, .error error)
    | .ok () => expand visit.reader state nodes

/-- Settles a candidate: the sources that reach it for the first time visit it at this depth. The
new frontier, the reached nodes and the arrivals are collected in reverse order. -/
def settle (depth : Nat) (state : SharedVisit × List Arrival) (node : Nat) :
    SharedVisit × List Arrival :=
  let (state, arrivals) := state
  let seen := maskOf state.seen node
  let fresh := maskOf state.next node &&& ~~~seen
  let state := { state with next := state.next.setIfInBounds node 0 }
  if fresh = 0 then (state, arrivals)
  else
    ({ state with
        seen := state.seen.setIfInBounds node (seen ||| fresh)
        visit := state.visit.setIfInBounds node fresh
        frontier := node :: state.frontier
        reached := if seen = 0 then node :: state.reached else state.reached },
      ⟨node, depth, onesOf fresh⟩ :: arrivals)

/-- Visits the nodes at a depth and beyond, at most `left` more depths. -/
def visitFrom (view : View) (left depth : Nat) (state : SharedVisit) :
    View × SharedVisit × Except ReadError (List Arrival) :=
  match left, state.frontier with
  | 0, _ | _, [] => (view, state, .ok [])
  | left + 1, frontier =>
    match expand view state frontier with
    | (view, state, .error error) => (view, state, .error error)
    | (view, state, .ok ()) =>
      let (settled, arrivals) :=
        state.candidates.foldl (settle depth) ({ state with frontier := [] }, [])
      let settled := { settled with frontier := settled.frontier.reverse, candidates := [] }
      let (view, settled, later) := visitFrom view left (depth + 1) settled
      (view, settled, later.map (arrivals.reverse ++ ·))

/-- Visits the graph from a group of sources, and returns the arrivals in the order of their
depths. Every depth adds a node to what some source has seen, so there are at most as many depths
as pairs of a node and a source. -/
def run (view : View) (state : SharedVisit) (sources : NodeRange) :
    View × SharedVisit × Except ReadError (List Arrival) :=
  visitFrom view (sourcesPerVisit * state.seen.size + 1) 1 (state.start sources.nodes)

end SharedVisit

end PackedGraph
