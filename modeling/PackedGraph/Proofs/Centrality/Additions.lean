import Mathlib
import PackedGraph.Centrality.Closeness
import PackedGraph.Proofs.Centrality.Visit

/-!
# Adding up arrivals

The steps of a computation of closeness share the counters of the nodes, and each addition to a
counter is a step of its own. Since no counter overflows, it ends up with the exact sum of all
additions, in whatever order they are performed.
-/

namespace PackedGraph

/-- The two counters of a node. -/
inductive Counter where
  | farness
  | component
deriving DecidableEq

namespace Counter

def array (world : ClosenessWorld) : Counter → Array UInt64
  | farness => world.farness
  | component => world.component

/-- What a source adds to a counter of a node at some distance. -/
def weight : Counter → (distance : Nat) → Nat
  | farness, distance => distance
  | component, _ => 1

theorem weight_le (counter : Counter) {distance : Nat} (h : 0 < distance) :
    counter.weight distance ≤ distance := by
  cases counter with
  | farness => exact le_rfl
  | component => exact h

end Counter

/-- A single addition to a counter of a node. -/
structure Addition where
  counter : Counter
  node : Nat
  amount : UInt64

def Addition.perform (world : ClosenessWorld) (addition : Addition) : ClosenessWorld :=
  match addition.counter with
  | .farness =>
    { world with farness := world.farness.modify addition.node (· + addition.amount) }
  | .component =>
    { world with component := world.component.modify addition.node (· + addition.amount) }

/-- The additions for an arrival. -/
def Arrival.additions (arrival : Arrival) : List Addition :=
  [⟨.farness, arrival.node, UInt64.ofNat arrival.sources * UInt64.ofNat arrival.depth⟩,
    ⟨.component, arrival.node, UInt64.ofNat arrival.sources⟩]

theorem foldl_addArrival_eq (world : ClosenessWorld) (arrivals : List Arrival) :
    arrivals.foldl ClosenessStep.addArrival world =
      (arrivals.flatMap Arrival.additions).foldl Addition.perform world := by
  rw [List.foldl_flatMap]
  rfl

/-- The sum of the additions to a counter of a node, in numbers without a bound. -/
def added (additions : List Addition) (counter : Counter) (node : Nat) : Nat :=
  (additions.map fun addition ↦
    if addition.counter = counter ∧ addition.node = node then addition.amount.toNat else 0).sum

theorem added_append (additions more : List Addition) (counter : Counter) (node : Nat) :
    added (additions ++ more) counter node =
      added additions counter node + added more counter node := by
  rw [added, List.map_append, List.sum_append]
  rfl

theorem added_flatMap {α : Type} (f : α → List Addition) (elements : List α) (counter : Counter)
    (node : Nat) :
    added (elements.flatMap f) counter node =
      (elements.map fun element ↦ added (f element) counter node).sum := by
  induction elements with
  | nil => rfl
  | cons element elements ih => rw [List.flatMap_cons, added_append, ih, List.map_cons,
      List.sum_cons]

theorem added_perm {additions other : List Addition} (h : additions.Perm other)
    (counter : Counter) (node : Nat) :
    added additions counter node = added other counter node :=
  (h.map _).sum_eq

/-! ## Counters -/

theorem getElem?_array_perform (world : ClosenessWorld) (addition : Addition) (counter : Counter)
    (node : Nat) :
    (counter.array (addition.perform world))[node]? =
      if addition.counter = counter ∧ addition.node = node
      then (counter.array world)[node]?.map (· + addition.amount)
      else (counter.array world)[node]? := by
  obtain ⟨target, place, amount⟩ := addition
  cases target <;> cases counter <;>
    simp [Addition.perform, Counter.array, Array.getElem?_modify]

/-- A counter that does not overflow holds the exact sum of the additions. -/
theorem getElem?_array_foldl_perform (additions : List Addition) {counter : Counter} {node : Nat}
    {world : ClosenessWorld} {value : UInt64} (hvalue : (counter.array world)[node]? = some value)
    (hlt : value.toNat + added additions counter node < 2 ^ 64) :
    ∃ total, (counter.array (additions.foldl Addition.perform world))[node]? = some total ∧
      total.toNat = value.toNat + added additions counter node := by
  induction additions generalizing world value with
  | nil => exact ⟨value, hvalue, rfl⟩
  | cons addition additions ih =>
    have hsplit : added (addition :: additions) counter node =
        (if addition.counter = counter ∧ addition.node = node then addition.amount.toNat else 0) +
          added additions counter node := List.sum_cons
    have hstep := getElem?_array_perform world addition counter node
    rw [hsplit] at hlt ⊢
    split_ifs at hlt hstep ⊢ with haddition
    · rw [hvalue, Option.map_some] at hstep
      have hsum : (value + addition.amount).toNat = value.toNat + addition.amount.toNat := by
        rw [UInt64.toNat_add, Nat.mod_eq_of_lt]
        omega
      rw [← Nat.add_assoc, ← hsum] at hlt ⊢
      exact ih hstep hlt
    · rw [hvalue] at hstep
      rw [Nat.zero_add] at hlt ⊢
      exact ih hstep hlt

theorem size_array_foldl_perform (counter : Counter) (additions : List Addition)
    (world : ClosenessWorld) :
    (counter.array (additions.foldl Addition.perform world)).size =
      (counter.array world).size := by
  induction additions generalizing world with
  | nil => rfl
  | cons addition additions ih =>
    rw [List.foldl_cons, ih]
    obtain ⟨target, place, amount⟩ := addition
    cases target <;> cases counter <;> simp [Addition.perform, Counter.array]

/-- The counters when a computation starts. -/
def zeroCounters (count : Nat) (isTerminated : Bool) : ClosenessWorld :=
  ⟨Array.replicate count 0, Array.replicate count 0, isTerminated⟩

theorem array_zeroCounters (count : Nat) (isTerminated : Bool) (counter : Counter) :
    counter.array (zeroCounters count isTerminated) = Array.replicate count 0 := by
  cases counter <;> rfl

theorem counters_eq {count : Nat} (isTerminated : Bool) {additions : List Addition}
    {counter : Counter} (hlt : ∀ node < count, added additions counter node < 2 ^ 64) :
    (counter.array (additions.foldl Addition.perform
        (zeroCounters count isTerminated))).toList.map UInt64.toNat =
      (List.range count).map (added additions counter) := by
  have hsize : (counter.array (additions.foldl Addition.perform
      (zeroCounters count isTerminated))).size = count := by
    rw [size_array_foldl_perform, array_zeroCounters, Array.size_replicate]
  apply List.ext_getElem?
  intro node
  rw [List.getElem?_map, List.getElem?_map, Array.getElem?_toList]
  by_cases hnode : node < count
  · have hzero : (counter.array (zeroCounters count isTerminated))[node]? = some 0 := by
      rw [array_zeroCounters, Array.getElem?_replicate, if_pos hnode]
    have hnodeLt : (0 : UInt64).toNat + added additions counter node < 2 ^ 64 := by
      rw [UInt64.toNat_zero, Nat.zero_add]
      exact hlt node hnode
    obtain ⟨total, htotal, heq⟩ := getElem?_array_foldl_perform additions hzero hnodeLt
    rw [htotal, List.getElem?_range hnode, Option.map_some, Option.map_some, heq,
      UInt64.toNat_zero, Nat.zero_add]
  · rw [Array.getElem?_eq_none (hsize.le.trans (not_lt.mp hnode)),
      List.getElem?_eq_none (List.length_range.le.trans (not_lt.mp hnode))]
    rfl

end PackedGraph
