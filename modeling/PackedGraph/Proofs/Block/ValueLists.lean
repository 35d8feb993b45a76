import Mathlib
import PackedGraph.Block.ValueBlock
import PackedGraph.Proofs.Block.Placement

/-!
# Value lists in a block

Lists of 64-bit values are packed like target lists, at addresses of their own. A cursor that is
moved to a list reads its values one by one.
-/

namespace PackedGraph

/-- An address refers to a list of values that a block keeps. -/
structure ValueAddress (block : Pages ValueBits) (address : Nat) (values : List ValueBits) :
    Prop where
  eq_zero_iff : address = 0 ↔ values = []
  keeps : values ≠ [] → block.Keeps address values

theorem ValueAddress.mono {longer block : Pages ValueBits} {address : Nat} {values : List ValueBits}
    (hext : longer.Extends block) (h : ValueAddress block address values) :
    ValueAddress longer address values :=
  ⟨h.eq_zero_iff, fun hne ↦ (h.keeps hne).mono hext⟩

namespace ValueBlockBuilder

/-- What a builder would build now is a block with the addresses of some lists. -/
structure Holds (builder : ValueBlockBuilder) (lists : List (List ValueBits)) : Prop where
  valid : builder.pages.Valid
  lists : List.Forall₂ (ValueAddress builder.pages.build) builder.addresses.toList lists

theorem holds_new (shift : PageShift) : (new shift).Holds [] :=
  ⟨PagesBuilder.valid_new shift, .nil⟩

theorem holds_add {builder : ValueBlockBuilder} {lists : List (List ValueBits)}
    (h : builder.Holds lists) (values : List ValueBits) :
    (builder.add values.toArray).Holds (lists ++ [values]) := by
  by_cases hnil : values = []
  · subst hnil
    refine ⟨h.valid, ?_⟩
    change List.Forall₂ _ (builder.addresses.push 0).toList _
    rw [Array.toList_push]
    exact List.rel_append h.lists (.cons ⟨by simp, fun hne ↦ absurd rfl hne⟩ .nil)
  · have hempty : values.toArray.isEmpty = false := by simpa using hnil
    have hne : values.toArray ≠ #[] := by simpa using hnil
    have hkeeps := PagesBuilder.keeps_push h.valid hne
    have hext := PagesBuilder.extends_push builder.pages hne
    rw [add, hempty]
    refine ⟨PagesBuilder.valid_push _ hne, ?_⟩
    rw [if_neg Bool.false_ne_true, Array.toList_push]
    refine List.rel_append (List.Forall₂.imp (fun _ _ haddress ↦ haddress.mono hext) h.lists) ?_
    exact .cons ⟨iff_of_false hkeeps.1 hnil, fun _ ↦ hkeeps⟩ .nil

end ValueBlockBuilder

namespace ValueCursor

/-- A cursor stands before a list of values. -/
structure Before (cursor : ValueCursor) (block : Pages ValueBits) (values : List ValueBits) :
    Prop where
  remaining_eq : cursor.remaining = values.length
  holds : values ≠ [] → ∃ page, block.pages[cursor.page]? = some page ∧
    HoldsAt page cursor.index values

theorem moveTo_of_valueAddress (cursor : ValueCursor) {block : Pages ValueBits} {address : Nat}
    {values : List ValueBits} (h : ValueAddress block address values) :
    ∃ moved, cursor.moveTo block address values.length = .ok moved ∧ moved.Before block values := by
  by_cases hnil : values = []
  · subst hnil
    rw [moveTo, if_pos (h.eq_zero_iff.mpr rfl), if_pos List.length_nil]
    exact ⟨_, rfl, rfl, fun hne ↦ absurd rfl hne⟩
  · have hkeeps := h.keeps hnil
    have hlocate := Pages.locate_of_keeps hkeeps hnil
    obtain ⟨hne, page, hpage, hholds⟩ := hkeeps
    have hsize : address % block.shift.pageSize + values.length ≤ page.size := by
      have hlength := hholds.length_le
      have hlt := hholds.lt_size hnil
      have hpagesize : page.toList.length = page.size := Array.length_toList
      rw [List.length_drop] at hlength
      omega
    rw [moveTo, if_neg hne, hlocate]
    simp only [bind, Except.bind, hpage, Option.map_some, Option.getD_some]
    rw [if_neg (by omega)]
    exact ⟨_, rfl, rfl, fun _ ↦ ⟨page, hpage, hholds⟩⟩

theorem nextBits_of_before_cons {cursor : ValueCursor} {block : Pages ValueBits} {bits : ValueBits}
    {values : List ValueBits} (h : cursor.Before block (bits :: values)) :
    ∃ moved, cursor.nextBits block = .ok (bits, moved) ∧ moved.Before block values := by
  obtain ⟨page, hpage, hholds⟩ := h.holds (List.cons_ne_nil _ _)
  have hremaining : cursor.remaining = values.length + 1 := h.remaining_eq
  have hparts := HoldsAt.cons_iff.mp hholds
  rw [nextBits, if_neg (by omega)]
  simp only [hpage, Option.bind_some, hparts.1]
  refine ⟨_, rfl, ?_, fun _ ↦ ⟨page, hpage, hparts.2⟩⟩
  simp [hremaining]

end ValueCursor

end PackedGraph
