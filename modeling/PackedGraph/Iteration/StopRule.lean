/-!
# Stopping rules

A rule decides from the number of completed iterations whether a computation stops.
-/

namespace PackedGraph

inductive StopRule where
  /-- Stop after at most so many iterations. -/
  | maxIterations (limit : Nat)
  /-- Stop when exactly so many iterations are complete. -/
  | exactly (iterations : Nat)
  | either (left right : StopRule)
  | both (left right : StopRule)
  | opposite (rule : StopRule)
deriving DecidableEq, Inhabited

namespace StopRule

/-- The limit that stands for no limit at all. -/
def unlimited : StopRule := maxIterations (UInt64.size - 1)

def stops : StopRule → Nat → Bool
  | maxIterations limit, completed => limit ≤ completed
  | exactly iterations, completed => completed == iterations
  | either left right, completed => left.stops completed || right.stops completed
  | both left right, completed => left.stops completed && right.stops completed
  | opposite rule, completed => !rule.stops completed

/-- The text of a limit on the number of iterations. -/
def limitText (limit : Nat) : String := s!"(max iterations: {limit})"

end StopRule

end PackedGraph
