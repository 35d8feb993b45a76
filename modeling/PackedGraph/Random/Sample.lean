import PackedGraph.Random.Generator

/-!
# Random samples

A sample of `k` different numbers below `n`, in random order. Small samples are drawn by the
method of Floyd, and larger ones by shuffling the front of the sequence of all numbers.
-/

namespace PackedGraph

/-- What chooses `k` numbers below `n` with a seed. -/
abbrev Sampler := (seed : UInt64) → (n k : Nat) → List Nat

namespace Sample

/-- Draws for the last `count` of the bounds up to and including `bound + count - 1`. A number
that is drawn again gives its place to the bound. -/
def floydFrom (bound : Nat) : (count : Nat) → Generator → List Nat → List Nat × Generator
  | 0, g, sample => (sample, g)
  | count + 1, g, sample =>
    let (t, g) := g.draw 0 bound
    let sample := sample.map (fun s ↦ if s = t then bound else s) ++ [t]
    floydFrom (bound + 1) count g sample

/-- The method of Floyd. -/
def floyd (g : Generator) (n k : Nat) : List Nat × Generator := floydFrom (n - k) k g []

/-- Shuffles `count` places of a sequence, beginning with place `i`. -/
def shuffleFrom (i : Nat) : (count : Nat) → Generator → Array Nat → Array Nat × Generator
  | 0, g, numbers => (numbers, g)
  | count + 1, g, numbers =>
    let (j, g) := g.draw i (numbers.size - 1)
    shuffleFrom (i + 1) count g (numbers.swapIfInBounds i j)

/-- The front of a shuffled sequence. -/
def shuffled (g : Generator) (n k : Nat) : List Nat × Generator :=
  let (numbers, g) := shuffleFrom 0 k g (Array.range n)
  (numbers.toList.take k, g)

/-- Whether a sample of `k` numbers below `n` is drawn by shuffling. -/
def isShuffled (n k : Nat) : Bool := 163 ≤ k || 11 < k && 5 * n < (50 + 8 * k) * k

/-- A sample of `k` different numbers below `n`, for `k ≤ n`. -/
def draw (g : Generator) (n k : Nat) : List Nat × Generator :=
  if isShuffled n k then shuffled g n k else floyd g n k

def ofSeed : Sampler := fun seed n k ↦ (draw (.ofSeed seed) n k).1

end Sample

end PackedGraph
