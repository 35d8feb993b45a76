import Mathlib
import PackedGraph.Proofs.Block.CursorRefinement
import PackedGraph.Proofs.View.Reading

/-!
# Decoding arbitrary bytes

A cursor can be moved to any address inside a block, with any degree, and takes the bytes there for
gaps. What it decodes are the running sums of the codes that follow one another in the page, until
it has as many targets as the degree says, or comes to bytes that are no code or lead beyond 64
bits. Then it stays where it is.
-/

namespace PackedGraph

/-! ## Addresses -/

namespace Pages

variable {α : Type} {block : Pages α} {address : Nat}

/-- An address lies inside a page of a block. -/
def Contains (block : Pages α) (address : Nat) : Prop :=
  ∃ elements, block.pages[address / block.shift.pageSize]? = some elements ∧
    address % block.shift.pageSize < elements.size

theorem locate_of_contains (hne : address ≠ 0) (h : block.Contains address) :
    block.locate address =
      .ok (address / block.shift.pageSize, address % block.shift.pageSize) := by
  obtain ⟨elements, hpage, hindex⟩ := h
  simp only [locate, hpage]
  rw [if_pos ⟨hne, hindex⟩]

theorem locate_of_not_contains (h : ¬ block.Contains address) :
    block.locate address = .error (.addressOutside address) := by
  rw [locate]
  cases hpage : block.pages[address / block.shift.pageSize]? with
  | none => rfl
  | some elements =>
    have hindex : ¬ (address ≠ 0 ∧ address % block.shift.pageSize < elements.size) :=
      fun hinside ↦ h ⟨elements, hpage, hinside.2⟩
    simp only [if_neg hindex]

end Pages

/-! ## Running sums -/

namespace Gap

theorem tail_scanl_concat (gaps : List Nat) (gap : Nat) :
    ((gaps ++ [gap]).scanl (· + ·) 0).tail =
      (gaps.scanl (· + ·) 0).tail ++ [gaps.sum + gap] := by
  rw [List.scanl_append, List.sum_eq_foldl]
  cases gaps <;> simp

theorem getLastD_tail_scanl (gaps : List Nat) :
    (gaps.scanl (· + ·) 0).tail.getLastD 0 = gaps.sum := by
  induction gaps using List.reverseRecOn with
  | nil => rfl
  | append_singleton gaps gap _ =>
    rw [tail_scanl_concat, List.getLastD_concat, List.sum_append, List.sum_singleton]

theorem le_sum_of_mem_tail_scanl {gaps : List Nat} {target : Nat}
    (h : target ∈ (gaps.scanl (· + ·) 0).tail) : target ≤ gaps.sum := by
  induction gaps using List.reverseRecOn with
  | nil => exact absurd h List.not_mem_nil
  | append_singleton gaps gap ih =>
    rw [tail_scanl_concat, List.mem_append, List.mem_singleton] at h
    rw [List.sum_append, List.sum_singleton]
    rcases h with hearlier | rfl
    · exact (ih hearlier).trans (Nat.le_add_right _ _)
    · exact le_rfl

theorem sorted_tail_scanl (gaps : List Nat) :
    (gaps.scanl (· + ·) 0).tail.Pairwise (· ≤ ·) := by
  induction gaps using List.reverseRecOn with
  | nil => exact .nil
  | append_singleton gaps gap ih =>
    rw [tail_scanl_concat, List.pairwise_append]
    refine ⟨ih, List.pairwise_singleton _ _, fun target htarget sum hsum ↦ ?_⟩
    rw [List.mem_singleton.mp hsum]
    exact (le_sum_of_mem_tail_scanl htarget).trans (Nat.le_add_right _ _)

/-- Between two positions of a page stand codes of gaps, one after another, of which some targets
are the running sums. -/
def StoredIn (elements : Array UInt8) (start next : Nat) (targets : List Nat) : Prop :=
  ∃ codes gaps, List.Forall₂ VarInt.IsCode codes gaps ∧ HoldsAt elements start codes.flatten ∧
    next = start + codes.flatten.length ∧ targets = (gaps.scanl (· + ·) 0).tail ∧
    ∀ target ∈ targets, target < 2 ^ 64

variable {elements : Array UInt8} {start next : Nat} {targets : List Nat}

theorem storedIn_nil (elements : Array UInt8) (start : Nat) :
    StoredIn elements start start [] :=
  ⟨[], [], .nil, .nil _ _, rfl, rfl, fun _ h ↦ absurd h List.not_mem_nil⟩

theorem StoredIn.concat (h : StoredIn elements start next targets) {code : List UInt8} {gap : Nat}
    (hcode : HoldsAt elements next code) (hisCode : VarInt.IsCode code gap)
    (hsmall : targets.getLastD 0 + gap < 2 ^ 64) :
    StoredIn elements start (next + code.length) (targets ++ [targets.getLastD 0 + gap]) := by
  obtain ⟨codes, gaps, hcodes, hholds, rfl, rfl, htargets⟩ := h
  rw [getLastD_tail_scanl] at hsmall ⊢
  refine ⟨codes ++ [code], gaps ++ [gap], List.rel_append hcodes (.cons hisCode .nil), ?_, ?_,
    (tail_scanl_concat gaps gap).symm, fun target htarget ↦ ?_⟩
  · rw [List.flatten_concat]
    exact HoldsAt.append_iff.mpr ⟨hholds, hcode⟩
  · rw [List.flatten_concat, List.length_append, Nat.add_assoc]
  · rcases List.mem_append.mp htarget with hearlier | hlast
    · exact htargets target hearlier
    · rw [List.mem_singleton.mp hlast]
      exact hsmall

theorem StoredIn.sorted (h : StoredIn elements start next targets) :
    targets.Pairwise (· ≤ ·) := by
  obtain ⟨_, gaps, _, _, _, rfl, _⟩ := h
  exact sorted_tail_scanl gaps

theorem StoredIn.next_le (h : StoredIn elements start next targets)
    (hstart : start ≤ elements.size) : next ≤ elements.size := by
  obtain ⟨codes, _, _, hholds, rfl, _⟩ := h
  have hlength : codes.flatten.length ≤ (elements.toList.drop start).length :=
    List.IsPrefix.length_le hholds
  rw [List.length_drop] at hlength
  rw [← Array.length_toList] at hstart ⊢
  omega

end Gap

/-! ## One target -/

namespace TargetCursor

/-- Where a cursor stands, no target can be decoded, for the reason that an error gives: the page
ends inside a code, or the bytes are no code, or the sum has more than 64 bits. -/
inductive StuckIn (cursor : TargetCursor) (block : Pages UInt8) : DecodeError → Prop
  | runsOut {elements : Array UInt8} (hpage : block.pages[cursor.page]? = some elements)
    (h : VarInt.RunsOut elements cursor.index) :
    StuckIn cursor block (.endsInsideValue cursor.page elements.size)
  | tooLarge {elements : Array UInt8} (hpage : block.pages[cursor.page]? = some elements)
    (hnot : ¬ VarInt.RunsOut elements cursor.index)
    (hlarge : ∀ code gap, HoldsAt elements cursor.index code → VarInt.IsCode code gap →
      2 ^ 64 ≤ cursor.last + gap) :
    StuckIn cursor block (.valueTooLarge cursor.page cursor.index)

theorem moveTo_of_not_contains (cursor : TargetCursor) {block : Pages UInt8} {address : Nat}
    (hne : address ≠ 0) (h : ¬ block.Contains address) (degree : Nat) :
    cursor.moveTo block address degree = .error (.addressOutside address) := by
  rw [moveTo, if_neg hne, Pages.locate_of_not_contains h]
  rfl

/-- A cursor with a page to read decodes the code at which it stands, or it is stuck. -/
theorem next_cases {cursor : TargetCursor} {block : Pages UInt8} {elements : Array UInt8}
    (hpage : block.pages[cursor.page]? = some elements) (hindex : cursor.index ≤ elements.size)
    (hremaining : cursor.remaining ≠ 0) :
    (∃ code gap, HoldsAt elements cursor.index code ∧ VarInt.IsCode code gap ∧
        cursor.last + gap < 2 ^ 64 ∧
        cursor.next block = .ok (cursor.last + gap, ⟨cursor.page, cursor.index + code.length,
          cursor.remaining - 1, cursor.last + gap⟩)) ∨
      ∃ error, cursor.StuckIn block error ∧ cursor.next block = .error (.decode error) := by
  have hcode {code : List UInt8} {gap : Nat} (hholds : HoldsAt elements cursor.index code)
      (hisCode : VarInt.IsCode code gap) :
      VarInt.decode elements cursor.page cursor.index = .ok (gap, cursor.index + code.length) :=
    (VarInt.decode_eq_ok_iff cursor.page).mpr ⟨code, hholds, rfl, hisCode⟩
  have hruns : VarInt.decode elements cursor.page cursor.index =
      .error (.endsInsideValue cursor.page (max cursor.index elements.size)) ↔
        VarInt.RunsOut elements cursor.index := VarInt.decode_eq_endsInsideValue_iff cursor.page
  rw [max_eq_right hindex] at hruns
  rw [next, if_neg hremaining]
  simp only [hpage]
  cases hread : VarInt.decode elements cursor.page cursor.index with
  | error error =>
    right
    rcases VarInt.decode_error_cases hread with rfl | rfl
    · refine ⟨_, .tooLarge hpage (fun h ↦ ?_) (fun code gap hholds hisCode ↦ ?_), rfl⟩
      · cases hread.symm.trans (hruns.mpr h)
      · cases hread.symm.trans (hcode hholds hisCode)
    · rw [max_eq_right hindex] at hread ⊢
      exact ⟨_, .runsOut hpage (hruns.mp hread), rfl⟩
  | ok step =>
    obtain ⟨gap, after⟩ := step
    obtain ⟨code, hholds, rfl, hisCode⟩ := (VarInt.decode_eq_ok_iff cursor.page).mp hread
    by_cases hsmall : cursor.last + gap < UInt64.size
    · left
      refine ⟨code, gap, hholds, hisCode, hsmall, ?_⟩
      simp only [if_pos hsmall]
    · right
      refine ⟨_, .tooLarge hpage (fun h ↦ ?_) (fun other value hother hisOther ↦ ?_), ?_⟩
      · cases hread.symm.trans (hruns.mpr h)
      -- No other code stands here, since the reader finds the gap of each.
      · have hsame := hread.symm.trans (hcode hother hisOther)
        obtain ⟨rfl, _⟩ := Prod.mk.inj (Except.ok.inj hsame)
        exact not_lt.mp hsmall
      · simp only [if_neg hsmall]

/-- The targets that a search decodes: those below the bound, and the first one that is not. -/
def passed (block : Pages UInt8) (bound : Nat) : (count : Nat) → TargetCursor → List Nat
  | 0, _ => []
  | count + 1, cursor =>
    match cursor.next block with
    | .error _ => []
    | .ok (target, cursor) =>
      if bound ≤ target then [target] else target :: passed block bound count cursor

/-- A cursor reads nothing but the page in which it stands. -/
theorem next_congr {cursor : TargetCursor} {block other : Pages UInt8}
    (h : other.pages[cursor.page]? = block.pages[cursor.page]?) :
    cursor.next other = cursor.next block := by
  rw [next, next, h]

theorem page_of_next {cursor moved : TargetCursor} {block : Pages UInt8} {target : Nat}
    (h : cursor.next block = .ok (target, moved)) : moved.page = cursor.page := by
  rw [next] at h
  split_ifs at h
  cases hpage : block.pages[cursor.page]? with
  | none =>
    rw [hpage] at h
    cases h
  | some elements =>
    simp only [hpage] at h
    cases hread : VarInt.decode elements cursor.page cursor.index with
    | error error =>
      rw [hread] at h
      cases h
    | ok step =>
      simp only [hread] at h
      split_ifs at h
      obtain ⟨_, rfl⟩ := Prod.mk.inj (Except.ok.inj h)
      rfl

theorem seek_congr {cursor : TargetCursor} {block other : Pages UInt8}
    (h : other.pages[cursor.page]? = block.pages[cursor.page]?) (bound count : Nat) :
    seek other bound count cursor = seek block bound count cursor := by
  induction count generalizing cursor with
  | zero => rfl
  | succ count ih =>
    rw [seek, seek, next_congr h]
    cases hnext : cursor.next block with
    | error error => rfl
    | ok step =>
      obtain ⟨target, moved⟩ := step
      have hmoved : other.pages[moved.page]? = block.pages[moved.page]? := by
        rw [page_of_next hnext, h]
      simp only [ih hmoved]

end TargetCursor

/-! ## Cursors with their history -/

/-- A cursor with the list to which it was moved last, and the targets that it has decoded since
then. -/
structure TracedCursor where
  cursor : TargetCursor
  slot : Slot
  decoded : List Nat

namespace TracedCursor

def blank : TracedCursor := ⟨.exhausted, ⟨0, 0⟩, []⟩

def moveTo (traced : TracedCursor) (block : Pages UInt8) (address degree : Nat) :
    TracedCursor × CursorAnswer :=
  match traced.cursor.moveTo block address degree with
  | .error error => (traced, .failed (.decode error))
  | .ok cursor => (⟨cursor, ⟨address, degree⟩, []⟩, .done)

def next (traced : TracedCursor) (block : Pages UInt8) : TracedCursor × CursorAnswer :=
  match traced.cursor.next block with
  | .error error => (traced, .failed error)
  | .ok (target, cursor) => (⟨cursor, traced.slot, traced.decoded ++ [target]⟩, .target target)

def advance (traced : TracedCursor) (block : Pages UInt8) (bound : Nat) :
    TracedCursor × CursorAnswer :=
  let passed := TargetCursor.passed block bound traced.cursor.remaining traced.cursor
  let (cursor, outcome) := traced.cursor.advance block bound
  (⟨cursor, traced.slot, traced.decoded ++ passed⟩, .ofExcept .found outcome)

/-- A cursor stands in its list: behind the codes of the targets that it has decoded, with the
others still to come. -/
structure StandsIn (traced : TracedCursor) (block : Pages UInt8) (elements : Array UInt8)
    (start : Nat) : Prop where
  locate_eq : block.locate traced.slot.address = .ok (traced.cursor.page, start)
  page_eq : block.pages[traced.cursor.page]? = some elements
  start_lt : start < elements.size
  stored : Gap.StoredIn elements start traced.cursor.index traced.decoded
  last_eq : traced.cursor.last = traced.decoded.getLastD 0
  count_eq : traced.cursor.remaining + traced.decoded.length = traced.slot.degree

variable {traced : TracedCursor} {block : Pages UInt8} {elements : Array UInt8} {start : Nat}

/-- A cursor can be moved to any address inside a page, with any degree. -/
theorem exists_moveTo_standsIn (cursor : TargetCursor) {address : Nat} (hne : address ≠ 0)
    (h : block.Contains address) (degree : Nat) :
    ∃ moved elements start, cursor.moveTo block address degree = .ok moved ∧
      StandsIn ⟨moved, ⟨address, degree⟩, []⟩ block elements start := by
  have hlocate := Pages.locate_of_contains hne h
  obtain ⟨elements, hpage, hindex⟩ := h
  rw [TargetCursor.moveTo, if_neg hne, hlocate]
  exact ⟨_, elements, _, rfl, hlocate, hpage, hindex, Gap.storedIn_nil _ _, rfl, rfl⟩

theorem StandsIn.next (h : traced.StandsIn block elements start)
    (hremaining : traced.cursor.remaining ≠ 0) :
    (∃ target cursor, traced.cursor.next block = .ok (target, cursor) ∧
        cursor.remaining + 1 = traced.cursor.remaining ∧
        StandsIn ⟨cursor, traced.slot, traced.decoded ++ [target]⟩ block elements start) ∨
      ∃ error, traced.cursor.StuckIn block error ∧
        traced.cursor.next block = .error (.decode error) := by
  have hindex := h.stored.next_le h.start_lt.le
  rcases TargetCursor.next_cases h.page_eq hindex hremaining with
    ⟨code, gap, hcode, hisCode, hsmall, hnext⟩ | hstuck
  · left
    rw [h.last_eq] at hsmall
    have hremains : traced.cursor.remaining - 1 + 1 = traced.cursor.remaining := by omega
    refine ⟨_, _, hnext, hremains, h.locate_eq, h.page_eq, h.start_lt, ?_, ?_, ?_⟩
    · rw [h.last_eq]
      exact h.stored.concat hcode hisCode hsmall
    · rw [List.getLastD_concat]
    · rw [List.length_append, List.length_singleton, ← h.count_eq]
      simp only
      omega
  · exact .inr hstuck

/-- Targets are all of a list, or those before the place where a cursor is stuck in it. -/
def AreRead (slot : Slot) (block : Pages UInt8) (targets : List Nat)
    (ending : Except ReadError Unit) : Prop :=
  ∃ cursor elements start, StandsIn ⟨cursor, slot, targets⟩ block elements start ∧
    (ending = .ok () ∧ targets.length = slot.degree ∨
      ∃ error, ending = .error (.decode error) ∧ cursor.StuckIn block error ∧
        targets.length < slot.degree)

/-- Reading on, a cursor stays in its list until nothing is left of it, or the cursor is stuck. -/
theorem StandsIn.reading (h : traced.StandsIn block elements start) {count : Nat}
    (hcount : traced.cursor.remaining = count) :
    ∃ cursor, StandsIn ⟨cursor, traced.slot,
        traced.decoded ++ (traced.cursor.reading block count).elements⟩ block elements start ∧
      ((traced.cursor.reading block count).ending = .ok () ∧ cursor.remaining = 0 ∨
        ∃ error, (traced.cursor.reading block count).ending = .error (.decode error) ∧
          cursor.remaining ≠ 0 ∧ cursor.StuckIn block error) := by
  induction count generalizing traced with
  | zero =>
    refine ⟨traced.cursor, ?_, .inl ⟨rfl, hcount⟩⟩
    rw [TargetCursor.reading, Reading.done, List.append_nil]
    exact h
  | succ count ih =>
    rw [TargetCursor.reading]
    rcases h.next (by omega) with ⟨target, moved, hnext, hmoved, hstands⟩ | ⟨error, hstuck, hnext⟩
    · obtain ⟨cursor, hcursor, hending⟩ := ih hstands (by simp only; omega)
      simp only [hnext, Reading.cons]
      rw [List.append_cons]
      exact ⟨cursor, hcursor, hending⟩
    · simp only [hnext, Reading.fail, List.append_nil]
      exact ⟨traced.cursor, h, .inr ⟨error, rfl, by omega, hstuck⟩⟩

theorem StandsIn.areRead (h : traced.StandsIn block elements start) :
    AreRead traced.slot block
      (traced.decoded ++ (traced.cursor.reading block traced.cursor.remaining).elements)
      (traced.cursor.reading block traced.cursor.remaining).ending := by
  obtain ⟨cursor, hcursor, hending⟩ := h.reading rfl
  have hcount := hcursor.count_eq
  simp only at hcount
  refine ⟨cursor, elements, start, hcursor, ?_⟩
  rcases hending with ⟨hok, hzero⟩ | ⟨error, herror, hremaining, hstuck⟩
  · exact .inl ⟨hok, by omega⟩
  · exact .inr ⟨error, herror, hstuck, by omega⟩

/-- How a search ends that has passed some targets: at the first one that is not below the bound, or
where nothing is left, or where the cursor is stuck. -/
def SearchEnds (block : Pages UInt8) (bound : Nat) (passed : List Nat) (cursor : TargetCursor) :
    Except ReadError (Option Nat) → Prop
  | .ok (some target) => bound ≤ target ∧
    ∃ skipped, passed = skipped ++ [target] ∧ ∀ other ∈ skipped, other < bound
  | .ok none => cursor.remaining = 0 ∧ ∀ other ∈ passed, other < bound
  | .error (.decode error) => cursor.remaining ≠ 0 ∧ cursor.StuckIn block error ∧
    ∀ other ∈ passed, other < bound
  | .error (.fault _) => False

theorem SearchEnds.cons {bound target : Nat} {passed : List Nat} {cursor : TargetCursor}
    {outcome : Except ReadError (Option Nat)} (hsmall : target < bound)
    (h : SearchEnds block bound passed cursor outcome) :
    SearchEnds block bound (target :: passed) cursor outcome := by
  rcases outcome with (error | fault) | (_ | found)
  · exact ⟨h.1, h.2.1, List.forall_mem_cons.mpr ⟨hsmall, h.2.2⟩⟩
  · exact h
  · exact ⟨h.1, List.forall_mem_cons.mpr ⟨hsmall, h.2⟩⟩
  · obtain ⟨hbound, skipped, rfl, hskipped⟩ := h
    exact ⟨hbound, target :: skipped, rfl, List.forall_mem_cons.mpr ⟨hsmall, hskipped⟩⟩

/-- A search leaves a cursor in its list, and ends for one of three reasons. -/
theorem StandsIn.seek (h : traced.StandsIn block elements start) (bound : Nat) {count : Nat}
    (hcount : traced.cursor.remaining = count) :
    StandsIn ⟨(TargetCursor.seek block bound count traced.cursor).1, traced.slot,
        traced.decoded ++ traced.cursor.passed block bound count⟩ block elements start ∧
      SearchEnds block bound (traced.cursor.passed block bound count)
        (TargetCursor.seek block bound count traced.cursor).1
        (TargetCursor.seek block bound count traced.cursor).2 := by
  induction count generalizing traced with
  | zero =>
    rw [TargetCursor.passed, List.append_nil]
    exact ⟨h, hcount, fun _ hother ↦ absurd hother List.not_mem_nil⟩
  | succ count ih =>
    rw [TargetCursor.passed, TargetCursor.seek]
    rcases h.next (by omega) with ⟨target, moved, hnext, hmoved, hstands⟩ | ⟨error, hstuck, hnext⟩
    · simp only [hnext]
      by_cases hbound : bound ≤ target
      · rw [if_pos hbound, if_pos hbound]
        exact ⟨hstands, hbound, [], rfl, fun _ hother ↦ absurd hother List.not_mem_nil⟩
      · obtain ⟨hcursor, hends⟩ := ih hstands (by simp only; omega)
        rw [if_neg hbound, if_neg hbound, List.append_cons]
        exact ⟨hcursor, hends.cons (not_le.mp hbound)⟩
    · simp only [hnext]
      rw [List.append_nil]
      exact ⟨h, by omega, hstuck, fun _ hother ↦ absurd hother List.not_mem_nil⟩

/-- A cursor agrees with its history: it has an empty list, or it stands in its list. -/
def Agrees (traced : TracedCursor) (block : Pages UInt8) : Prop :=
  traced.slot.address = 0 ∧ traced.cursor.remaining = 0 ∧ traced.decoded = [] ∨
    traced.slot.address ≠ 0 ∧ ∃ elements start, traced.StandsIn block elements start

theorem agrees_blank (block : Pages UInt8) : blank.Agrees block := .inl ⟨rfl, rfl, rfl⟩

theorem moveTo_of_not_contains (traced : TracedCursor) {address : Nat} (hne : address ≠ 0)
    (h : ¬ block.Contains address) (degree : Nat) :
    traced.moveTo block address degree = (traced, .failed (.decode (.addressOutside address))) := by
  rw [moveTo, TargetCursor.moveTo_of_not_contains traced.cursor hne h]

/-- Moving into a page, or to the empty list, always succeeds. -/
theorem moveTo_of_contains (traced : TracedCursor) {address : Nat}
    (h : address = 0 ∨ block.Contains address) (degree : Nat) :
    ∃ cursor, traced.moveTo block address degree = (⟨cursor, ⟨address, degree⟩, []⟩, .done) ∧
      Agrees ⟨cursor, ⟨address, degree⟩, []⟩ block := by
  rw [moveTo]
  by_cases hzero : address = 0
  · rw [TargetCursor.moveTo, if_pos hzero]
    exact ⟨_, rfl, .inl ⟨hzero, rfl, rfl⟩⟩
  · obtain ⟨cursor, elements, start, hmove, hstands⟩ :=
      exists_moveTo_standsIn traced.cursor hzero (h.resolve_left hzero) degree
    rw [hmove]
    exact ⟨cursor, rfl, .inr ⟨hzero, elements, start, hstands⟩⟩

theorem Agrees.moveTo (h : traced.Agrees block) (address degree : Nat) :
    (traced.moveTo block address degree).1.Agrees block := by
  by_cases hinside : address = 0 ∨ block.Contains address
  · obtain ⟨cursor, hmove, hagrees⟩ := traced.moveTo_of_contains hinside degree
    rw [hmove]
    exact hagrees
  · rw [traced.moveTo_of_not_contains (not_or.mp hinside).1 (not_or.mp hinside).2]
    exact h

theorem next_of_remaining_eq_zero (h : traced.cursor.remaining = 0) :
    traced.next block = (traced, .failed (.fault .cursorExhausted)) := by
  rw [next, TargetCursor.next, if_pos h]

theorem Agrees.next_cases (h : traced.Agrees block) (hremaining : traced.cursor.remaining ≠ 0) :
    (∃ target cursor, traced.next block =
        (⟨cursor, traced.slot, traced.decoded ++ [target]⟩, .target target) ∧
        Agrees ⟨cursor, traced.slot, traced.decoded ++ [target]⟩ block) ∨
      ∃ error, traced.cursor.StuckIn block error ∧
        traced.next block = (traced, .failed (.decode error)) := by
  rcases h with ⟨_, hzero, _⟩ | ⟨hne, elements, start, hstands⟩
  · exact absurd hzero hremaining
  · rw [next]
    rcases hstands.next hremaining with ⟨target, cursor, hnext, _, hmoved⟩ | ⟨error, hstuck, hnext⟩
    · rw [hnext]
      exact .inl ⟨target, cursor, rfl, .inr ⟨hne, elements, start, hmoved⟩⟩
    · rw [hnext]
      exact .inr ⟨error, hstuck, rfl⟩

theorem Agrees.next (h : traced.Agrees block) : (traced.next block).1.Agrees block := by
  by_cases hremaining : traced.cursor.remaining = 0
  · rw [next_of_remaining_eq_zero hremaining]
    exact h
  · rcases h.next_cases hremaining with ⟨target, cursor, hnext, hagrees⟩ | ⟨error, _, hnext⟩
    · rw [hnext]
      exact hagrees
    · rw [hnext]
      exact h

theorem Agrees.advance (h : traced.Agrees block) (bound : Nat) :
    (traced.advance block bound).1.Agrees block ∧
      ∃ passed outcome, (traced.advance block bound).2 = .ofExcept .found outcome ∧
        (traced.advance block bound).1.slot = traced.slot ∧
        (traced.advance block bound).1.decoded = traced.decoded ++ passed ∧
        SearchEnds block bound passed (traced.advance block bound).1.cursor outcome := by
  rcases h with ⟨hzero, hremaining, hdecoded⟩ | ⟨hne, elements, start, hstands⟩
  · rw [TracedCursor.advance, TargetCursor.advance, hremaining]
    refine ⟨.inl ⟨hzero, hremaining, ?_⟩, [], .ok none, rfl, rfl, rfl, hremaining, ?_⟩
    · rw [TargetCursor.passed, List.append_nil]
      exact hdecoded
    · exact fun _ hother ↦ absurd hother List.not_mem_nil
  · obtain ⟨hcursor, hends⟩ := hstands.seek bound rfl
    exact ⟨.inr ⟨hne, elements, start, hcursor⟩, _, _, rfl, rfl, rfl, hends⟩

end TracedCursor

/-! ## All calls -/

/-- A call on one of any number of cursors on a block. -/
inductive BlockCall where
  | moveTo (address degree : Nat)
  | next
  | advance (bound : Nat)
  | cloneTo (other : Nat)

namespace TracedCursor

/-- The cursors after a call on the cursor of a number. -/
def perform (block : Pages UInt8) (cursors : Nat → TracedCursor) :
    Nat × BlockCall → Nat → TracedCursor
  | (number, .moveTo address degree) =>
    Function.update cursors number ((cursors number).moveTo block address degree).1
  | (number, .next) => Function.update cursors number ((cursors number).next block).1
  | (number, .advance bound) =>
    Function.update cursors number ((cursors number).advance block bound).1
  | (number, .cloneTo other) => Function.update cursors other (cursors number)

/-- The cursors after a sequence of calls, if all of them were blank before. -/
def performAll (block : Pages UInt8) (calls : List (Nat × BlockCall)) : Nat → TracedCursor :=
  calls.foldl (perform block) fun _ ↦ blank

theorem agrees_update {block : Pages UInt8} {cursors : Nat → TracedCursor}
    (h : ∀ n, (cursors n).Agrees block) (number : Nat) {traced : TracedCursor}
    (htraced : traced.Agrees block) (n : Nat) :
    (Function.update cursors number traced n).Agrees block :=
  (Function.forall_update_iff cursors fun _ traced ↦ traced.Agrees block).mpr
    ⟨htraced, fun n _ ↦ h n⟩ n

theorem agrees_perform {block : Pages UInt8} {cursors : Nat → TracedCursor}
    (h : ∀ n, (cursors n).Agrees block) (call : Nat × BlockCall) (n : Nat) :
    (perform block cursors call n).Agrees block := by
  obtain ⟨number, call⟩ := call
  cases call with
  | moveTo address degree => exact agrees_update h number ((h number).moveTo address degree) n
  | next => exact agrees_update h number (h number).next n
  | advance bound => exact agrees_update h number ((h number).advance bound).1 n
  | cloneTo other => exact agrees_update h other (h number) n

theorem agrees_performAll (block : Pages UInt8) (calls : List (Nat × BlockCall)) (n : Nat) :
    (performAll block calls n).Agrees block := by
  induction calls using List.reverseRecOn generalizing n with
  | nil => exact agrees_blank block
  | append_singleton calls call ih =>
    rw [performAll, List.foldl_concat]
    exact agrees_perform ih call n

/-- What a cursor does with its block. It moves to an address exactly if it is zero or lies inside a
page. What it has decoded since then are the running sums of the codes in that page, and no other
page matters. A step decodes one more target, or it leaves the cursor as it was, which is stuck. To
the end of the list there are as many targets as the degree says, or fewer and a failure. -/
structure DecodesLawfully (traced : TracedCursor) (block : Pages UInt8) : Prop where
  moveTo_inside : ∀ address degree, address = 0 ∨ block.Contains address →
    ∃ cursor, traced.moveTo block address degree = (⟨cursor, ⟨address, degree⟩, []⟩, .done)
  moveTo_outside : ∀ address degree, address ≠ 0 → ¬ block.Contains address →
    traced.moveTo block address degree = (traced, .failed (.decode (.addressOutside address)))
  empty : traced.slot.address = 0 → traced.cursor.hasNext = false ∧ traced.decoded = []
  stored : traced.slot.address ≠ 0 → ∃ elements start, traced.StandsIn block elements start ∧
    traced.cursor.index ≤ elements.size ∧ traced.decoded.Pairwise (· ≤ ·)
  one_page : ∀ other : Pages UInt8,
    other.pages[traced.cursor.page]? = block.pages[traced.cursor.page]? →
    traced.cursor.next other = traced.cursor.next block ∧
      ∀ bound, traced.cursor.advance other bound = traced.cursor.advance block bound
  next_ended : traced.cursor.hasNext = false →
    traced.next block = (traced, .failed (.fault .cursorExhausted))
  next_cases : traced.cursor.hasNext = true →
    (∃ target cursor, traced.next block =
        (⟨cursor, traced.slot, traced.decoded ++ [target]⟩, .target target)) ∨
      ∃ error, traced.cursor.StuckIn block error ∧
        traced.next block = (traced, .failed (.decode error))
  advance : ∀ bound, ∃ passed outcome,
    (traced.advance block bound).2 = .ofExcept .found outcome ∧
      (traced.advance block bound).1.slot = traced.slot ∧
      (traced.advance block bound).1.decoded = traced.decoded ++ passed ∧
      SearchEnds block bound passed (traced.advance block bound).1.cursor outcome
  drained : traced.slot.address ≠ 0 →
    AreRead traced.slot block
      (traced.decoded ++ (traced.cursor.reading block traced.cursor.remaining).elements)
      (traced.cursor.reading block traced.cursor.remaining).ending

theorem hasNext_eq_false_iff {cursor : TargetCursor} :
    cursor.hasNext = false ↔ cursor.remaining = 0 := by
  simp [TargetCursor.hasNext]

theorem Agrees.decodesLawfully {traced : TracedCursor} {block : Pages UInt8}
    (h : traced.Agrees block) : traced.DecodesLawfully block where
  moveTo_inside address degree hinside := by
    obtain ⟨cursor, hmove, _⟩ := traced.moveTo_of_contains hinside degree
    exact ⟨cursor, hmove⟩
  moveTo_outside address degree hne houtside := traced.moveTo_of_not_contains hne houtside degree
  empty hzero := by
    obtain ⟨_, hremaining, hdecoded⟩ := h.resolve_right fun hlist ↦ hlist.1 hzero
    exact ⟨hasNext_eq_false_iff.mpr hremaining, hdecoded⟩
  stored hne := by
    obtain ⟨_, elements, start, hstands⟩ := h.resolve_left fun hempty ↦ hne hempty.1
    exact ⟨elements, start, hstands, hstands.stored.next_le hstands.start_lt.le,
      hstands.stored.sorted⟩
  one_page other hother :=
    ⟨TargetCursor.next_congr hother, fun bound ↦ TargetCursor.seek_congr hother bound _⟩
  next_ended hended := next_of_remaining_eq_zero (hasNext_eq_false_iff.mp hended)
  next_cases hnext := by
    have hremaining : traced.cursor.remaining ≠ 0 := by simpa [TargetCursor.hasNext] using hnext
    rcases h.next_cases hremaining with ⟨target, cursor, hmoved, _⟩ | hstuck
    · exact .inl ⟨target, cursor, hmoved⟩
    · exact .inr hstuck
  advance bound := (h.advance bound).2
  drained hne := by
    obtain ⟨_, _, _, hstands⟩ := h.resolve_left fun hempty ↦ hne hempty.1
    exact hstands.areRead

/-- Whatever bytes a block consists of, and whatever calls are made on cursors, with whatever
addresses, degrees and bounds, every cursor decodes lawfully at any time. -/
theorem any_block_is_decoded_lawfully (block : Pages UInt8) (calls : List (Nat × BlockCall))
    (number : Nat) : (performAll block calls number).DecodesLawfully block :=
  (agrees_performAll block calls number).decodesLawfully

end TracedCursor

end PackedGraph
