import Mathlib
import PackedGraph.Proofs.Block.TargetLists

/-!
# Cursors as plain lists

Cursors on a built block and lists of the targets that are left are two kinds of cursors with the
same operations. Whatever calls are made, on however many cursors and in whatever order, both kinds
give the same answers.
-/

namespace PackedGraph

/-- A kind of cursors on numbered lists. An operation returns the cursor as it leaves it. -/
structure CursorKind (κ : Type) where
  blank : κ
  moveTo : κ → (node : Nat) → κ × Except ReadError Unit
  next : κ → κ × Except ReadError Nat
  advance : κ → (bound : Nat) → κ × Except ReadError (Option Nat)
  hasNext : κ → Bool
  remaining : κ → Nat

/-- A call on one of any number of cursors. -/
inductive CursorCall where
  | renew
  | moveTo (node : Nat)
  | next
  | advance (bound : Nat)
  | hasNext
  | remaining
  | cloneTo (other : Nat)

inductive CursorAnswer where
  | done
  | target (target : Nat)
  | found (target : Option Nat)
  | flag (hasNext : Bool)
  | count (remaining : Nat)
  | failed (error : ReadError)
deriving DecidableEq

/-- The answer to a call that may fail. -/
def CursorAnswer.ofExcept {α : Type} (toAnswer : α → CursorAnswer) :
    Except ReadError α → CursorAnswer
  | .ok a => toAnswer a
  | .error error => .failed error

namespace CursorKind

variable {κ : Type}

/-- Performs a call on the cursor of a number. -/
def perform (kind : CursorKind κ) (cursors : Nat → κ) (number : Nat) :
    CursorCall → (Nat → κ) × CursorAnswer
  | .renew => (Function.update cursors number kind.blank, .done)
  | .moveTo node =>
    let (cursor, outcome) := kind.moveTo (cursors number) node
    (Function.update cursors number cursor, .ofExcept (fun _ ↦ .done) outcome)
  | .next =>
    let (cursor, outcome) := kind.next (cursors number)
    (Function.update cursors number cursor, .ofExcept .target outcome)
  | .advance bound =>
    let (cursor, outcome) := kind.advance (cursors number) bound
    (Function.update cursors number cursor, .ofExcept .found outcome)
  | .hasNext => (cursors, .flag (kind.hasNext (cursors number)))
  | .remaining => (cursors, .count (kind.remaining (cursors number)))
  | .cloneTo other => (Function.update cursors other (cursors number), .done)

/-- The answers to a sequence of calls on numbered cursors. -/
def answers (kind : CursorKind κ) (cursors : Nat → κ) : List (Nat × CursorCall) → List CursorAnswer
  | [] => []
  | (number, call) :: calls =>
    let (cursors, answer) := kind.perform cursors number call
    answer :: kind.answers cursors calls

theorem answers_cons (kind : CursorKind κ) (cursors : Nat → κ) (number : Nat) (call : CursorCall)
    (calls : List (Nat × CursorCall)) :
    kind.answers cursors ((number, call) :: calls) =
      (kind.perform cursors number call).2 ::
        kind.answers (kind.perform cursors number call).1 calls := rfl

end CursorKind

/-- Cursors that decode the lists of a block. -/
def TargetIndex.cursors (index : TargetIndex) (block : Pages UInt8) : CursorKind TargetCursor where
  blank := .exhausted
  moveTo cursor node :=
    match index.slot node with
    | .error fault => (cursor, .error (.fault fault))
    | .ok slot =>
      match cursor.moveTo block slot.address slot.degree with
      | .error error => (cursor, .error (.decode error))
      | .ok moved => (moved, .ok ())
  next cursor :=
    match cursor.next block with
    | .error error => (cursor, .error error)
    | .ok (target, moved) => (moved, .ok target)
  advance cursor bound := cursor.advance block bound
  hasNext := TargetCursor.hasNext
  remaining := TargetCursor.remaining

/-- Cursors that are the lists of the targets they have left. -/
def listCursors (lists : List (List Nat)) : CursorKind (List Nat) where
  blank := []
  moveTo rest node :=
    match lists[node]? with
    | none => (rest, .error (.fault .outOfBounds))
    | some targets => (targets, .ok ())
  next
    | [] => ([], .error (.fault .cursorExhausted))
    | target :: rest => (rest, .ok target)
  advance rest bound := ((rest.dropWhile (· < bound)).tail, .ok (rest.dropWhile (· < bound)).head?)
  hasNext rest := !rest.isEmpty
  remaining := List.length

section Simulation

variable {index : TargetIndex} {block : Pages UInt8} {lists : List (List Nat)}
  {cursors : Nat → TargetCursor} {rests : Nat → List Nat}

theorem before_update (h : ∀ n, (cursors n).Before block (rests n)) (number : Nat)
    {cursor : TargetCursor} {rest : List Nat} (hcursor : cursor.Before block rest) (n : Nat) :
    (Function.update cursors number cursor n).Before block
      (Function.update rests number rest n) := by
  by_cases hn : n = number
  · rw [hn, Function.update_self, Function.update_self]
    exact hcursor
  · rw [Function.update_of_ne hn, Function.update_of_ne hn]
    exact h n

/-- A call keeps every cursor before its list, and both kinds answer it alike. -/
theorem perform_of_before (hindex : index.Lists block lists)
    (hpack : ∀ targets ∈ lists, Packable targets) (h : ∀ n, (cursors n).Before block (rests n))
    (number : Nat) (call : CursorCall) :
    ((index.cursors block).perform cursors number call).2 =
        ((listCursors lists).perform rests number call).2 ∧
      ∀ n, (((index.cursors block).perform cursors number call).1 n).Before block
        (((listCursors lists).perform rests number call).1 n) := by
  have hnumber := h number
  cases call with
  | renew => exact ⟨rfl, before_update h number (TargetCursor.before_nil block rfl)⟩
  | moveTo node =>
    cases hnode : lists[node]? with
    | none =>
      have hslot := hindex.slot_eq_error hnode
      simp only [CursorKind.perform, TargetIndex.cursors, listCursors, hnode, hslot]
      exact ⟨trivial, before_update h number hnumber⟩
    | some targets =>
      obtain ⟨slot, hslot, hrefers⟩ := hindex.slot_eq hnode
      have htargets := hpack targets (List.mem_of_getElem? hnode)
      obtain ⟨moved, hmove, hmoved⟩ :=
        TargetCursor.moveTo_of_refersTo (cursors number) hrefers htargets
      simp only [CursorKind.perform, TargetIndex.cursors, listCursors, hnode, hslot, hmove]
      exact ⟨trivial, before_update h number hmoved⟩
  | next =>
    cases hrest : rests number with
    | nil =>
      rw [hrest] at hnumber
      have hnext := TargetCursor.next_of_before_nil hnumber
      simp only [CursorKind.perform, TargetIndex.cursors, listCursors, hrest, hnext]
      exact ⟨trivial, before_update h number hnumber⟩
    | cons target rest =>
      rw [hrest] at hnumber
      obtain ⟨moved, hnext, hmoved⟩ := TargetCursor.next_of_before_cons hnumber
      simp only [CursorKind.perform, TargetIndex.cursors, listCursors, hrest, hnext]
      exact ⟨trivial, before_update h number hmoved⟩
  | advance bound =>
    obtain ⟨moved, hadvance, hmoved⟩ := TargetCursor.advance_of_before hnumber bound
    simp only [CursorKind.perform, TargetIndex.cursors, listCursors, hadvance]
    exact ⟨trivial, before_update h number hmoved⟩
  | hasNext =>
    refine ⟨?_, h⟩
    have hflag : (cursors number).hasNext = !(rests number).isEmpty := by
      rw [TargetCursor.hasNext, hnumber.remaining_eq]
      cases rests number <;> rfl
    exact congrArg CursorAnswer.flag hflag
  | remaining => exact ⟨congrArg CursorAnswer.count hnumber.remaining_eq, h⟩
  | cloneTo other => exact ⟨rfl, before_update h other hnumber⟩

theorem answers_of_before (hindex : index.Lists block lists)
    (hpack : ∀ targets ∈ lists, Packable targets) (h : ∀ n, (cursors n).Before block (rests n))
    (calls : List (Nat × CursorCall)) :
    (index.cursors block).answers cursors calls = (listCursors lists).answers rests calls := by
  induction calls generalizing cursors rests with
  | nil => rfl
  | cons entry calls ih =>
    obtain ⟨number, call⟩ := entry
    obtain ⟨hanswer, hnext⟩ := perform_of_before hindex hpack h number call
    rw [CursorKind.answers_cons, CursorKind.answers_cons, hanswer, ih hnext]

end Simulation

/-- Plain lists are never corrupt. -/
theorem listCursors_perform_ne_decode (lists : List (List Nat)) (rests : Nat → List Nat)
    (number : Nat) (call : CursorCall) (error : DecodeError) :
    ((listCursors lists).perform rests number call).2 ≠ .failed (.decode error) := by
  cases call with
  | moveTo node =>
    cases hnode : lists[node]? <;>
      simp [CursorKind.perform, listCursors, hnode, CursorAnswer.ofExcept]
  | next =>
    cases hrest : rests number <;>
      simp [CursorKind.perform, listCursors, hrest, CursorAnswer.ofExcept]
  | renew => nofun
  | advance bound => nofun
  | hasNext => nofun
  | remaining => nofun
  | cloneTo other => nofun

theorem listCursors_answers_ne_decode (lists : List (List Nat)) (rests : Nat → List Nat)
    (calls : List (Nat × CursorCall)) (error : DecodeError) :
    .failed (.decode error) ∉ (listCursors lists).answers rests calls := by
  induction calls generalizing rests with
  | nil => exact List.not_mem_nil
  | cons entry calls ih =>
    obtain ⟨number, call⟩ := entry
    rw [CursorKind.answers_cons, List.mem_cons, not_or]
    exact ⟨(listCursors_perform_ne_decode lists rests number call error).symm, ih _⟩

/-- A block with its index stands for some lists: it gives their lengths, marks the empty ones by
address zero, and no calls on any number of cursors tell it apart from the lists themselves. -/
structure TargetIndex.Refines (index : TargetIndex) (block : Pages UInt8)
    (lists : List (List Nat)) : Prop where
  size_eq : index.size = lists.length
  slots : ∀ node targets, lists[node]? = some targets → ∃ slot, index.slot node = .ok slot ∧
    (slot.address = 0 ↔ targets = []) ∧ slot.degree = targets.length
  answers_eq : ∀ calls, (index.cursors block).answers (fun _ ↦ .exhausted) calls =
    (listCursors lists).answers (fun _ ↦ []) calls
  decodes : ∀ calls error,
    .failed (.decode error) ∉ (index.cursors block).answers (fun _ ↦ .exhausted) calls

theorem TargetIndex.Lists.refines {index : TargetIndex} {block : Pages UInt8}
    {lists : List (List Nat)} (h : index.Lists block lists)
    (hpack : ∀ targets ∈ lists, Packable targets) : index.Refines block lists := by
  have hbefore (n : Nat) : TargetCursor.exhausted.Before block [] :=
    TargetCursor.before_nil block rfl
  have hanswers := answers_of_before h hpack hbefore
  refine ⟨h.size_eq, fun node targets hnode ↦ ?_, hanswers, fun calls error ↦ ?_⟩
  · obtain ⟨slot, hslot, hrefers⟩ := h.slot_eq hnode
    exact ⟨slot, hslot, hrefers.address_eq_zero, hrefers.degree_eq⟩
  · rw [hanswers calls]
    exact listCursors_answers_ne_decode lists _ calls error

/-- Whatever sorted lists are packed, and however large the pages are, the block stands for them. -/
theorem built_block_refines_lists (shift : PageShift) (lists : List (List Nat))
    (hpack : ∀ targets ∈ lists, Packable targets) :
    ∃ builder, lists.foldlM TargetBlockBuilder.add (.new shift) = .ok builder ∧
      builder.build.2.Refines builder.build.1 lists := by
  obtain ⟨builder, hbuilder, hholds⟩ :=
    TargetBlockBuilder.foldlM_add_of_holds (TargetBlockBuilder.holds_new shift) hpack
  exact ⟨builder, hbuilder, hholds.lists.refines hpack⟩

/-- Lists with repeats, without targets, and with gaps of ten bytes, in pages of two bytes. -/
theorem built_block_refines_three_lists :
    (∀ targets ∈ [[0, 0, 300], [], [2 ^ 64 - 1]], Packable targets) ∧
      ∃ builder, [[0, 0, 300], [], [2 ^ 64 - 1]].foldlM TargetBlockBuilder.add
          (.new ⟨1, le_rfl, by decide⟩) = .ok builder ∧
        builder.build.2.Refines builder.build.1 [[0, 0, 300], [], [2 ^ 64 - 1]] := by
  have hpack : ∀ targets ∈ [[0, 0, 300], [], [2 ^ 64 - 1]], Packable targets := by
    intro targets htargets
    simp only [List.mem_cons, List.not_mem_nil, or_false] at htargets
    rcases htargets with rfl | rfl | rfl <;> exact ⟨by decide, by decide, by decide⟩
  exact ⟨hpack, built_block_refines_lists ⟨1, le_rfl, by decide⟩ _ hpack⟩

end PackedGraph
