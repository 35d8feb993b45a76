import Mathlib
import PackedGraph.Iteration.Scalar

/-!
# Exact sums

Numbers are added up to running totals that start at zero, and the totals of several parts are added
up again. Addition is exact on some numbers if the order and the parts do not matter for them. Then
there is one sum, which is also what is found from left to right.
-/

namespace PackedGraph.Scalar

variable {R : Type} [Scalar R] {values left right : Multiset R} {a b : R}

/-- A total of some numbers, which have been added to each other in any order and in any parts. -/
inductive AddsUpTo : Multiset R → R → Prop
  | zero : AddsUpTo 0 zero
  | add_value {values : Multiset R} {a : R} (value : R) :
    AddsUpTo values a → AddsUpTo (value ::ₘ values) (add a value)
  | add {left right : Multiset R} {a b : R} :
    AddsUpTo left a → AddsUpTo right b → AddsUpTo (left + right) (add a b)
  | emptySum_add {values : Multiset R} {a : R} :
    AddsUpTo values a → AddsUpTo values (add emptySum a)

/-- Any of the numbers have the same total, however they are added up. -/
def AddExactly (values : Multiset R) : Prop :=
  ∀ part ≤ values, ∀ a b, AddsUpTo part a → AddsUpTo part b → a = b

/-- The total of some numbers from left to right, starting at zero. -/
def sum (values : List R) : R := values.foldl add zero

theorem AddExactly.mono (h : AddExactly right) (hle : left ≤ right) : AddExactly left :=
  fun part hpart ↦ h part (hpart.trans hle)

/-! ## Running totals -/

theorem AddsUpTo.foldl (h : AddsUpTo values a) (more : List R) :
    AddsUpTo (values + (more : Multiset R)) (more.foldl Scalar.add a) := by
  induction more generalizing values a with
  | nil => rwa [Multiset.coe_nil, add_zero]
  | cons value more ih =>
    rw [← Multiset.cons_coe, Multiset.add_cons, ← Multiset.cons_add]
    exact ih (h.add_value value)

theorem addsUpTo_sum (values : List R) : AddsUpTo (values : Multiset R) (sum values) := by
  have hsum := (AddsUpTo.zero (R := R)).foldl values
  rwa [zero_add] at hsum

theorem AddsUpTo.foldl_totals (h : AddsUpTo values a) {parts : List (Multiset R)} {totals : List R}
    (hparts : List.Forall₂ AddsUpTo parts totals) :
    AddsUpTo (values + parts.sum) (totals.foldl Scalar.add a) := by
  induction hparts generalizing values a with
  | nil => rwa [List.sum_nil, add_zero]
  | cons hpart _ ih =>
    rw [List.sum_cons, ← add_assoc]
    exact ih (h.add hpart)

/-- The sum of the totals of some parts. -/
theorem addsUpTo_sum_totals {parts : List (Multiset R)} {totals : List R}
    (h : List.Forall₂ AddsUpTo parts totals) : AddsUpTo parts.sum (sum totals) := by
  have hsum := AddsUpTo.zero.foldl_totals h
  rwa [zero_add] at hsum

/-- The total of the totals of some parts, of which there is at least one. -/
theorem addsUpTo_total {parts : List (Multiset R)} {totals : List R}
    (h : List.Forall₂ AddsUpTo parts totals) (hne : parts ≠ []) :
    AddsUpTo parts.sum (total totals) := by
  cases h with
  | nil => exact absurd rfl hne
  | cons hpart h => exact hpart.emptySum_add.foldl_totals h

theorem AddsUpTo.eq_sum {values : List R} (h : AddsUpTo (values : Multiset R) a)
    (hexact : AddExactly (values : Multiset R)) : a = sum values :=
  hexact _ le_rfl a (sum values) h (addsUpTo_sum values)

end PackedGraph.Scalar
