/-!
# Vote tallies

A tally adds up the weights of the votes for each label. The winner is the label of the largest
total weight, and the smallest one of several such labels.
-/

namespace PackedGraph

/-- The total weight of each label, in the order in which the labels got their first vote. -/
abbrev VoteTally := List (UInt64 × Float)

namespace VoteTally

/-- Adds a vote. The total of a label starts from zero. -/
def vote (tally : VoteTally) (label : UInt64) (weight : Float) : VoteTally :=
  match tally with
  | [] => [(label, 0.0 + weight)]
  | (other, total) :: rest =>
    if other = label then (other, total + weight) :: rest
    else (other, total) :: vote rest label weight

/-- The better of the best label so far and the next one. -/
def better (best : Option (UInt64 × Float)) (entry : UInt64 × Float) : UInt64 × Float :=
  match best with
  | none => entry
  | some best =>
    if entry.2 < best.2 || entry.2 == best.2 && best.1 < entry.1 then best else entry

/-- The winner among labels in the order of a list, or `current` if there are no votes. -/
def winner (tally : VoteTally) (current : UInt64) : UInt64 :=
  match tally.foldl (fun best entry ↦ some (better best entry)) none with
  | some (label, _) => label
  | none => current

end VoteTally

end PackedGraph
