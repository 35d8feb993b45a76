import Mathlib
import PackedGraph.Block.TargetCursor
import PackedGraph.Proofs.Block.Grammar
import PackedGraph.Proofs.Block.Placement

/-!
# Target lists in a block

The index of a block that is built from sorted lists gives the length of each list, and an address
at which its gaps can be read. A cursor that is moved there stands before the list: it reads the
targets one by one, in spite of the pages, and what remains is always the rest of the list.
-/

namespace PackedGraph

/-- Related lists have related elements at the same positions. -/
theorem forall₂_lookup {α β : Type} {r : α → β → Prop} {as : List α} {bs : List β}
    (h : List.Forall₂ r as bs) {i : Nat} {b : β} (hb : bs[i]? = some b) :
    ∃ a, as[i]? = some a ∧ r a b := by
  induction h generalizing i with
  | nil => simp at hb
  | cons hhead _ ih =>
    cases i with
    | zero =>
      rw [List.getElem?_cons_zero, Option.some_inj] at hb
      exact ⟨_, List.getElem?_cons_zero, hb ▸ hhead⟩
    | succ i =>
      rw [List.getElem?_cons_succ] at hb ⊢
      exact ih hb

/-- A sorted list of 64-bit targets that can be counted with 32 bits. -/
structure Packable (targets : List Nat) : Prop where
  sorted : targets.Pairwise (· ≤ ·)
  small : ∀ target ∈ targets, target < 2 ^ 64
  short : targets.length < 2 ^ 32

/-- A slot of an index refers to a list that a block keeps. -/
structure Slot.RefersTo (slot : Slot) (block : Pages UInt8) (targets : List Nat) : Prop where
  degree_eq : slot.degree = targets.length
  address_eq_zero : slot.address = 0 ↔ targets = []
  keeps : targets ≠ [] → block.Keeps slot.address (Gap.bytesAfter 0 targets)

theorem Slot.RefersTo.mono {slot : Slot} {longer block : Pages UInt8} {targets : List Nat}
    (hext : longer.Extends block) (h : slot.RefersTo block targets) :
    slot.RefersTo longer targets :=
  ⟨h.degree_eq, h.address_eq_zero, fun hne ↦ (h.keeps hne).mono hext⟩

namespace TargetIndex

/-- The slots of an index refer to some lists, one after another. -/
def Lists (index : TargetIndex) (block : Pages UInt8) (lists : List (List Nat)) : Prop :=
  List.Forall₂ (fun slot targets ↦ slot.RefersTo block targets) index.slots.toList lists

theorem Lists.mono {index : TargetIndex} {longer block : Pages UInt8} {lists : List (List Nat)}
    (hext : longer.Extends block) (h : index.Lists block lists) : index.Lists longer lists :=
  List.Forall₂.imp (fun _ _ hslot ↦ hslot.mono hext) h

theorem Lists.push {index : TargetIndex} {block : Pages UInt8} {lists : List (List Nat)}
    {slot : Slot} {targets : List Nat} (h : index.Lists block lists)
    (hslot : slot.RefersTo block targets) :
    TargetIndex.Lists ⟨index.slots.push slot⟩ block (lists ++ [targets]) := by
  rw [Lists, Array.toList_push]
  exact List.rel_append h (List.Forall₂.cons hslot .nil)

theorem Lists.size_eq {index : TargetIndex} {block : Pages UInt8} {lists : List (List Nat)}
    (h : index.Lists block lists) : index.size = lists.length := by
  rw [size, ← Array.length_toList]
  exact h.length_eq

theorem Lists.slot_eq {index : TargetIndex} {block : Pages UInt8} {lists : List (List Nat)}
    (h : index.Lists block lists) {node : Nat} {targets : List Nat}
    (hnode : lists[node]? = some targets) :
    ∃ slot, index.slot node = .ok slot ∧ slot.RefersTo block targets := by
  obtain ⟨slot, hslot, hrefers⟩ := forall₂_lookup h hnode
  rw [Array.getElem?_toList] at hslot
  refine ⟨slot, ?_, hrefers⟩
  simp only [TargetIndex.slot, hslot]

theorem Lists.slot_eq_error {index : TargetIndex} {block : Pages UInt8} {lists : List (List Nat)}
    (h : index.Lists block lists) {node : Nat} (hnode : lists[node]? = none) :
    index.slot node = .error .outOfBounds := by
  have hsize : index.slots.size = lists.length := h.size_eq
  rw [List.getElem?_eq_none_iff, ← hsize] at hnode
  simp only [slot, Array.getElem?_eq_none hnode]

theorem Lists.degree_eq {index : TargetIndex} {block : Pages UInt8} {lists : List (List Nat)}
    (h : index.Lists block lists) {node : Nat} {targets : List Nat}
    (hnode : lists[node]? = some targets) : index.degree node = .ok targets.length := by
  obtain ⟨slot, hslot, hrefers⟩ := h.slot_eq hnode
  rw [degree, hslot]
  exact congrArg Except.ok hrefers.degree_eq

theorem Lists.degreeSum_eq {index : TargetIndex} {block : Pages UInt8} {lists : List (List Nat)}
    (h : index.Lists block lists) : index.degreeSum = (lists.map List.length).sum := by
  have hmap : index.slots.toList.map Slot.degree = lists.map List.length := by
    rw [← List.forall₂_eq_eq_eq, List.forall₂_map_left_iff, List.forall₂_map_right_iff]
    exact List.Forall₂.imp (fun _ _ hslot ↦ hslot.degree_eq) h
  rw [degreeSum, ← Array.foldl_toList, ← List.sum_eq_foldl, Array.toList_map, hmap]

end TargetIndex

namespace TargetBlockBuilder

/-- What a builder would build now is a block with an index of some lists. -/
structure Holds (builder : TargetBlockBuilder) (lists : List (List Nat)) : Prop where
  valid : builder.pages.Valid
  lists : TargetIndex.Lists ⟨builder.slots⟩ builder.pages.build lists

theorem holds_new (shift : PageShift) : (new shift).Holds [] :=
  ⟨PagesBuilder.valid_new shift, .nil⟩

theorem add_eq {builder : TargetBlockBuilder} {targets : List Nat} (hpack : Packable targets) :
    builder.add targets =
      builder.addEncoded (Gap.bytesAfter 0 targets).toArray targets.length := by
  rw [add, Gap.append_of_sorted #[] hpack.sorted]
  simp

/-- Adding a list does not disturb the lists before it. -/
theorem add_of_holds {builder : TargetBlockBuilder} {lists : List (List Nat)}
    (h : builder.Holds lists) {targets : List Nat} (hpack : Packable targets) :
    ∃ next, builder.add targets = .ok next ∧ next.Holds (lists ++ [targets]) := by
  have hshort : ¬ UInt32.size ≤ targets.length := Nat.not_le.mpr hpack.short
  rw [add_eq hpack, addEncoded, if_neg hshort]
  by_cases hnil : targets = []
  · subst hnil
    refine ⟨_, rfl, h.valid, h.lists.push ⟨rfl, by simp, fun hne ↦ absurd rfl hne⟩⟩
  · have hlength : targets.length ≠ 0 := by simpa using hnil
    have hbytes : (Gap.bytesAfter 0 targets).toArray ≠ #[] := by
      simpa using Gap.bytesAfter_ne_nil hnil
    have hkeeps := PagesBuilder.keeps_push h.valid hbytes
    have hext := PagesBuilder.extends_push builder.pages hbytes
    rw [if_neg hlength]
    refine ⟨_, rfl, PagesBuilder.valid_push _ hbytes,
      (h.lists.mono hext).push ⟨rfl, ?_, fun _ ↦ hkeeps⟩⟩
    exact iff_of_false hkeeps.1 hnil

theorem foldlM_add_of_holds {builder : TargetBlockBuilder} {done lists : List (List Nat)}
    (h : builder.Holds done) (hpack : ∀ targets ∈ lists, Packable targets) :
    ∃ built, lists.foldlM add builder = .ok built ∧ built.Holds (done ++ lists) := by
  induction lists generalizing builder done with
  | nil => exact ⟨builder, rfl, by simpa using h⟩
  | cons targets lists ih =>
    obtain ⟨next, hnext, hholds⟩ := add_of_holds h (hpack targets List.mem_cons_self)
    obtain ⟨built, hbuilt, hfinal⟩ :=
      ih hholds fun list hlist ↦ hpack list (List.mem_cons_of_mem _ hlist)
    refine ⟨built, ?_, by simpa using hfinal⟩
    rw [List.foldlM_cons, hnext]
    exact hbuilt

end TargetBlockBuilder

namespace TargetCursor

/-- A cursor stands before a list: the gaps that it will decode are those of the list. -/
structure Before (cursor : TargetCursor) (block : Pages UInt8) (targets : List Nat) : Prop where
  remaining_eq : cursor.remaining = targets.length
  sorted : (cursor.last :: targets).Pairwise (· ≤ ·)
  small : ∀ target ∈ targets, target < 2 ^ 64
  holds : targets ≠ [] → ∃ page, block.pages[cursor.page]? = some page ∧
    HoldsAt page cursor.index (Gap.bytesAfter cursor.last targets)

theorem before_nil {cursor : TargetCursor} (block : Pages UInt8) (h : cursor.remaining = 0) :
    cursor.Before block [] :=
  ⟨h, List.pairwise_singleton _ _, by simp, fun hne ↦ absurd rfl hne⟩

theorem moveTo_of_refersTo (cursor : TargetCursor) {slot : Slot} {block : Pages UInt8}
    {targets : List Nat} (hslot : slot.RefersTo block targets) (hpack : Packable targets) :
    ∃ moved, cursor.moveTo block slot.address slot.degree = .ok moved ∧
      moved.Before block targets := by
  by_cases hnil : targets = []
  · rw [moveTo, if_pos (hslot.address_eq_zero.mpr hnil)]
    exact ⟨_, rfl, hnil ▸ before_nil block rfl⟩
  · have hkeeps := hslot.keeps hnil
    have hlocate := Pages.locate_of_keeps hkeeps (Gap.bytesAfter_ne_nil hnil)
    rw [moveTo, if_neg hkeeps.1, hlocate]
    refine ⟨_, rfl, hslot.degree_eq, ?_, hpack.small, fun _ ↦ hkeeps.2⟩
    exact List.pairwise_cons.mpr ⟨fun _ _ ↦ Nat.zero_le _, hpack.sorted⟩

theorem next_of_before_nil {cursor : TargetCursor} {block : Pages UInt8}
    (h : cursor.Before block []) : cursor.next block = .error (.fault .cursorExhausted) := by
  have hremaining : cursor.remaining = 0 := h.remaining_eq
  rw [next, if_pos hremaining]

theorem next_of_before_cons {cursor : TargetCursor} {block : Pages UInt8} {target : Nat}
    {targets : List Nat} (h : cursor.Before block (target :: targets)) :
    ∃ moved, cursor.next block = .ok (target, moved) ∧ moved.Before block targets := by
  obtain ⟨page, hpage, hholds⟩ := h.holds (List.cons_ne_nil _ _)
  have hremaining : cursor.remaining = targets.length + 1 := h.remaining_eq
  have hsorted := List.pairwise_cons.mp h.sorted
  have hle : cursor.last ≤ target := hsorted.1 target List.mem_cons_self
  have hsmall : target < UInt64.size := h.small target List.mem_cons_self
  have hparts := HoldsAt.append_iff.mp hholds
  have hgap : target - cursor.last < 2 ^ 64 := (Nat.sub_le _ _).trans_lt hsmall
  have hdecode := VarInt.decode_encode cursor.page hgap hparts.1
  have hsum : cursor.last + (target - cursor.last) = target := by omega
  rw [next, if_neg (by omega)]
  simp only [hpage, hdecode, hsum, if_pos hsmall]
  refine ⟨_, rfl, ?_, hsorted.2, fun t ht ↦ h.small t (List.mem_cons_of_mem _ ht), fun _ ↦ ?_⟩
  · simp [hremaining]
  · exact ⟨page, hpage, hparts.2⟩

/-- Seeking passes over the targets that are too small, and over one that is not. -/
theorem seek_of_before {cursor : TargetCursor} {block : Pages UInt8} {targets : List Nat}
    (h : cursor.Before block targets) (bound : Nat) :
    ∃ moved, seek block bound targets.length cursor =
        (moved, .ok (targets.dropWhile (· < bound)).head?) ∧
      moved.Before block (targets.dropWhile (· < bound)).tail := by
  induction targets generalizing cursor with
  | nil => exact ⟨cursor, rfl, h⟩
  | cons target targets ih =>
    obtain ⟨moved, hnext, hmoved⟩ := next_of_before_cons h
    rw [List.length_cons, seek]
    simp only [hnext]
    by_cases hbound : bound ≤ target
    · have hdrop : (target :: targets).dropWhile (· < bound) = target :: targets :=
        List.dropWhile_cons_of_neg (by simpa using hbound)
      rw [if_pos hbound, hdrop]
      exact ⟨moved, rfl, hmoved⟩
    · have hdrop : (target :: targets).dropWhile (· < bound) = targets.dropWhile (· < bound) :=
        List.dropWhile_cons_of_pos (by simpa using hbound)
      rw [if_neg hbound, hdrop]
      exact ih hmoved

theorem advance_of_before {cursor : TargetCursor} {block : Pages UInt8} {targets : List Nat}
    (h : cursor.Before block targets) (bound : Nat) :
    ∃ moved, cursor.advance block bound = (moved, .ok (targets.dropWhile (· < bound)).head?) ∧
      moved.Before block (targets.dropWhile (· < bound)).tail := by
  rw [advance, h.remaining_eq]
  exact seek_of_before h bound

end TargetCursor

end PackedGraph
