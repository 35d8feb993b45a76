import PackedGraph.View.Basic

/-!
# Partitions of the nodes

The nodes `0, …, n - 1` are split into consecutive ranges, either of the same number of nodes or
with about the same number of relationships.
-/

namespace PackedGraph

/-- The nodes from `start` on, up to but not including `stop`. -/
structure NodeRange where
  start : Nat
  stop : Nat
deriving DecidableEq, Inhabited

namespace NodeRange

def size (range : NodeRange) : Nat := range.stop - range.start

def contains (range : NodeRange) (node : Nat) : Bool :=
  range.start ≤ node && node < range.stop

def nodes (range : NodeRange) : List Nat := List.range' range.start range.size

/-- A range in pieces of the given positive size, of which the last one may be shorter. -/
def split (range : NodeRange) (size : Nat) : List NodeRange :=
  (List.range ((range.size + size - 1) / size)).map fun i ↦
    let start := range.start + i * size
    ⟨start, min range.stop (start + size)⟩

/-- The nodes below `count` in ranges of the given positive size. -/
def chunks (count size : Nat) : List NodeRange := split ⟨0, count⟩ size

end NodeRange

/-- The number of batches for a number of threads: a few for each thread. -/
def batchCount (concurrency : Nat) : Nat := max concurrency 1 * 4

/-- Brings a number of batches between one and the number of nodes. -/
def clampBatches (batches nodeCount : Nat) : Nat := min (max batches 1) nodeCount

def divCeil (a b : Nat) : Nat := (a + b - 1) / b

/-- Splits the nodes into ranges of the same size, except that the last one may be shorter. There
are at most `batches` ranges, and none but the last is shorter than `minSize`. -/
def rangePartition (nodeCount batches minSize : Nat) : List NodeRange :=
  if nodeCount = 0 then []
  else
    let size := divCeil nodeCount (clampBatches batches nodeCount)
    NodeRange.chunks nodeCount (max (max size minSize) 1)

/-- Closes a range as soon as its weight reaches the target. The weights are those of the nodes
from `node` on, and the open range starts at `start` and weighs `weight`. -/
def cutByWeight (target : Nat) : (start node weight : Nat) → List Nat → List NodeRange
  | start, node, _, [] => if start < node then [⟨start, node⟩] else []
  | start, node, weight, w :: weights =>
    if target ≤ weight + w then
      ⟨start, node + 1⟩ :: cutByWeight target (node + 1) (node + 1) 0 weights
    else cutByWeight target start (node + 1) (weight + w) weights

/-- Splits the nodes of a view into at most `batches` ranges of about the same weight, where a node
weighs one more than its degree. -/
def degreePartition (view : View) (batches : Nat) : Except Fault (List NodeRange) :=
  let count := view.nodeCount
  if count = 0 then .ok []
  else do
    let target := divCeil (view.relationshipCount + count) (clampBatches batches count)
    let weights ← (List.range count).mapM fun node ↦ return (← view.degree node) + 1
    return cutByWeight target 0 0 0 weights

end PackedGraph
