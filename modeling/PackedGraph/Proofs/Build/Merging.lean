import PackedGraph.Proofs.Arithmetic.Ordering
import PackedGraph.Proofs.Block.FloatBits
import PackedGraph.Proofs.Build.Duality

/-!
# What is merged in an undirected graph

An arc is laid out in both directions, so between two different nodes every arc that joins them has
one entry. A loop has two entries in the same list, one after the other. Both are in the run that
is merged, which matters to the number and to the sum of the values, but not to the first, the
smallest or the largest one.
-/

namespace PackedGraph

namespace Aggregation

/-! ## Merging a single value -/

variable {value : ValueBits}

theorem smaller_infinity (h : (Float.ofBits value).isNaN = false) :
    smaller (Float.toBits (1.0 / 0.0)) value = value := by
  rw [smaller, h, Bool.false_or, FloatBits.ofBits_toBits, if_neg]
  exact mt of_decide_eq_true (FloatOrder.not_infinity_lt (Float.ofBits value))

theorem larger_neg_infinity (h : (Float.ofBits value).isNaN = false) :
    larger (Float.toBits (-1.0 / 0.0)) value = value := by
  rw [larger, h, Bool.false_or, FloatBits.ofBits_toBits, if_neg]
  exact mt of_decide_eq_true (FloatOrder.not_lt_neg_infinity (Float.ofBits value))

theorem total_singleton (value : ValueBits) : total [value] = (Float.ofBits value).toBits :=
  congrArg Float.toBits (FloatBits.negativeZero_add (Float.ofBits value))

/-- The sum of a single value is the same number, or not a number if the value is none. -/
theorem ofBits_total_singleton (value : ValueBits) :
    Float.ofBits (total [value]) = Float.ofBits value := by
  rw [total_singleton, FloatBits.ofBits_toBits]

/-- Merging keeps the value of a relationship without parallel ones, unless relationships are
counted. What is not a number is kept where the first value is, but has no place in a minimum or
maximum, and loses its sign and payload in a sum. -/
theorem merge_singleton {aggregation : Aggregation} (hcount : aggregation ≠ count)
    (hnumber : aggregation = single ∨ aggregation = keepAll ∨
      (Float.ofBits value).isNaN = false) :
    aggregation.merge [value] = value := by
  cases aggregation with
  | keepAll | single => rfl
  | sum =>
    rw [merge, total_singleton]
    exact FloatBits.toBits_ofBits (by simpa using hnumber)
  | min => exact smaller_infinity (by simpa using hnumber)
  | max => exact larger_neg_infinity (by simpa using hnumber)
  | count => exact absurd rfl hcount

/-! ## Merging every value twice -/

/-- Every value of a list twice in a row. -/
def twice (values : List ValueBits) : List ValueBits := values.flatMap fun value ↦ [value, value]

theorem length_twice (values : List ValueBits) : (twice values).length = 2 * values.length := by
  induction values with
  | nil => rfl
  | cons value values ih =>
    change (twice values).length + 2 = 2 * (values.length + 1)
    rw [ih, Nat.mul_succ]

theorem twice_eq_nil_iff {values : List ValueBits} : twice values = [] ↔ values = [] := by
  cases values with
  | nil => exact Iff.rfl
  | cons value values => exact iff_of_false (List.cons_ne_nil _ _) (List.cons_ne_nil _ _)

theorem foldl_twice {f : ValueBits → ValueBits → ValueBits} (hf : ∀ a b, f (f a b) b = f a b)
    (values : List ValueBits) (a : ValueBits) : (twice values).foldl f a = values.foldl f a := by
  induction values generalizing a with
  | nil => rfl
  | cons value values ih =>
    change (twice values).foldl f (f (f a value) value) = values.foldl f (f a value)
    rw [hf, ih]

theorem smaller_smaller (a b : ValueBits) : smaller (smaller a b) b = smaller a b := by
  by_cases h : (Float.ofBits b).isNaN || Float.ofBits a < Float.ofBits b
  · have hleft : smaller a b = a := if_pos h
    rw [hleft, hleft]
  · have hright : smaller a b = b := if_neg h
    rw [hright]
    exact ite_self b

theorem larger_larger (a b : ValueBits) : larger (larger a b) b = larger a b := by
  by_cases h : (Float.ofBits b).isNaN || Float.ofBits b < Float.ofBits a
  · have hleft : larger a b = a := if_pos h
    rw [hleft, hleft]
  · have hright : larger a b = b := if_neg h
    rw [hright]
    exact ite_self b

/-- The merged value of loops: they are counted and added twice. -/
def mergeLoops (aggregation : Aggregation) (values : List ValueBits) : ValueBits :=
  match aggregation with
  | sum => total (twice values)
  | count => (Float.ofNat (2 * values.length)).toBits
  | _ => aggregation.merge values

theorem merge_twice (aggregation : Aggregation) (values : List ValueBits) :
    aggregation.merge (twice values) = aggregation.mergeLoops values := by
  cases aggregation with
  | keepAll | single => cases values <;> rfl
  | sum => rfl
  | min => exact foldl_twice smaller_smaller values _
  | max => exact foldl_twice larger_larger values _
  | count => exact congrArg (fun length ↦ (Float.ofNat length).toBits) (length_twice values)

theorem mergeLoops_singleton {aggregation : Aggregation} (hsum : aggregation ≠ sum)
    (hcount : aggregation ≠ count)
    (hnumber : aggregation = single ∨ aggregation = keepAll ∨
      (Float.ofBits value).isNaN = false) :
    aggregation.mergeLoops [value] = value := by
  have hmerge := merge_singleton hcount hnumber
  cases aggregation with
  | keepAll | single | min | max => exact hmerge
  | sum => exact absurd rfl hsum
  | count => exact absurd rfl hcount

/-! ## Bundles -/

theorem bundles_of_ne_keepAll {aggregation : Aggregation} (h : aggregation ≠ keepAll)
    (arcs : List Arc) : aggregation.bundles arcs = if arcs = [] then [] else [arcs] := by
  cases aggregation with
  | keepAll => exact absurd rfl h
  | single | sum | min | max | count => cases arcs <;> rfl

end Aggregation

/-! ## Arcs that join two nodes -/

/-- Whether an arc joins two nodes, in either direction. -/
def Arc.isBetween (s t : Nat) (arc : Arc) : Bool := arc.joins s t || arc.joins t s

/-- The values of the arcs that join two nodes, in the order in which they were added. -/
def joiningValues (arcs : List Arc) (s t key : Nat) : List ValueBits :=
  (arcs.filter (·.isBetween s t)).map (·.valueAt key)

theorem joiningValues_cons (arc : Arc) (arcs : List Arc) (s t key : Nat) :
    joiningValues (arc :: arcs) s t key =
      joiningValues [arc] s t key ++ joiningValues arcs s t key := by
  rw [joiningValues, ← List.singleton_append, List.filter_append, List.map_append]
  rfl

theorem entriesBetween_cons (orientation : Orientation) (arc : Arc) (arcs : List Arc)
    (source target : Nat) : entriesBetween orientation (arc :: arcs) source target =
      (orientation.entries arc).filter (·.joins source target) ++
        entriesBetween orientation arcs source target := by
  rw [entriesBetween, List.flatMap_cons, List.filter_append]
  rfl

/-- An arc that joins two different nodes has one entry from each of them to the other one. -/
theorem Orientation.map_filter_undirected_entries {s t : Nat} (hne : s ≠ t) (arc : Arc)
    (key : Nat) : ((undirected.entries arc).filter (·.joins s t)).map (·.valueAt key) =
      joiningValues [arc] s t key := by
  have hreversed : arc.reversed.joins s t = arc.joins t s := arc.joins_reversed t s
  simp only [entries, joiningValues, Arc.isBetween, List.filter_cons, List.filter_nil, hreversed]
  cases hst : arc.joins s t with
  | false => cases arc.joins t s <;> rfl
  | true =>
    rw [Arc.not_joins_reversed hne hst]
    rfl

/-- A loop has two entries. -/
theorem Orientation.map_filter_undirected_entries_self (s : Nat) (arc : Arc) (key : Nat) :
    ((undirected.entries arc).filter (·.joins s s)).map (·.valueAt key) =
      Aggregation.twice (joiningValues [arc] s s key) := by
  have hreversed : arc.reversed.joins s s = arc.joins s s := arc.joins_reversed s s
  simp only [entries, joiningValues, Arc.isBetween, List.filter_cons, List.filter_nil, hreversed]
  cases arc.joins s s <;> rfl

/-- In the list of one of two different nodes, the value of every arc that joins them stands once
for the other one. -/
theorem map_valueAt_entriesBetween {s t : Nat} (hne : s ≠ t) (arcs : List Arc) (key : Nat) :
    (entriesBetween .undirected arcs s t).map (·.valueAt key) = joiningValues arcs s t key := by
  induction arcs with
  | nil => rfl
  | cons arc arcs ih =>
    rw [entriesBetween_cons, joiningValues_cons, List.map_append, ih,
      Orientation.map_filter_undirected_entries hne]

/-- In the list of a node, the value of every loop stands twice in a row. -/
theorem map_valueAt_entriesBetween_self (arcs : List Arc) (s key : Nat) :
    (entriesBetween .undirected arcs s s).map (·.valueAt key) =
      Aggregation.twice (joiningValues arcs s s key) := by
  induction arcs with
  | nil => rfl
  | cons arc arcs ih =>
    rw [entriesBetween_cons, joiningValues_cons, List.map_append, ih,
      Orientation.map_filter_undirected_entries_self, Aggregation.twice, Aggregation.twice,
      Aggregation.twice, List.flatMap_append]

end PackedGraph
