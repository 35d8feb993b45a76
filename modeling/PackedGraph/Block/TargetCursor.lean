import PackedGraph.Block.TargetBlock
import PackedGraph.Block.Visit

/-!
# Cursors on target lists

A cursor stands before a target of a list, and decodes one target at a time. It knows how many
targets are left and which target was the last one. A step that fails leaves it where it was.
-/

namespace PackedGraph

structure TargetCursor where
  page : Nat
  index : Nat
  remaining : Nat
  last : Nat
deriving DecidableEq, Inhabited

namespace TargetCursor

/-- A cursor with nothing to read. -/
def exhausted : TargetCursor := ⟨0, 0, 0, 0⟩

/-- Moves a cursor to the start of the list with the given address and degree. Address zero is the
empty list, whatever the degree. -/
def moveTo (cursor : TargetCursor) (block : Pages UInt8) (address degree : Nat) :
    Except DecodeError TargetCursor :=
  if address = 0 then .ok { cursor with remaining := 0 }
  else do
    let (page, index) ← block.locate address
    return ⟨page, index, degree, 0⟩

def hasNext (cursor : TargetCursor) : Bool := cursor.remaining != 0

/-- The next target, and the cursor after it. -/
def next (cursor : TargetCursor) (block : Pages UInt8) : Except ReadError (Nat × TargetCursor) :=
  if cursor.remaining = 0 then .error (.fault .cursorExhausted)
  else
    match block.pages[cursor.page]? with
    | none => .error (.fault .outOfBounds)
    | some bytes =>
      match VarInt.decode bytes cursor.page cursor.index with
      | .error error => .error (.decode error)
      | .ok (gap, index) =>
        let target := cursor.last + gap
        if target < UInt64.size then
          .ok (target, ⟨cursor.page, index, cursor.remaining - 1, target⟩)
        else .error (.decode (.valueTooLarge cursor.page cursor.index))

/-- Reads up to `count` targets, until one that is at least `bound`. -/
def seek (block : Pages UInt8) (bound : Nat) :
    (count : Nat) → TargetCursor → TargetCursor × Except ReadError (Option Nat)
  | 0, cursor => (cursor, .ok none)
  | count + 1, cursor =>
    match cursor.next block with
    | .error error => (cursor, .error error)
    | .ok (target, cursor) =>
      if bound ≤ target then (cursor, .ok (some target)) else seek block bound count cursor

/-- Skips the targets smaller than `bound`, and reads the first one that is not. -/
def advance (cursor : TargetCursor) (block : Pages UInt8) (bound : Nat) :
    TargetCursor × Except ReadError (Option Nat) :=
  seek block bound cursor.remaining cursor

variable {σ : Type}

/-- Hands up to `count` targets to a consumer. -/
def visitUpTo (block : Pages UInt8) (consume : σ → Nat → Response σ) :
    (count : Nat) → TargetCursor → σ → Visit TargetCursor σ
  | 0, cursor, state => ⟨cursor, state, .ok ()⟩
  | count + 1, cursor, state =>
    match cursor.next block with
    | .error error => ⟨cursor, state, .error error⟩
    | .ok (target, cursor) =>
      match consume state target with
      | .more state => visitUpTo block consume count cursor state
      | .enough state => ⟨cursor, state, .ok ()⟩
      | .broken fault => ⟨cursor, state, .error (.fault fault)⟩

/-- Hands the targets that are left to a consumer. -/
def visit (cursor : TargetCursor) (block : Pages UInt8) (consume : σ → Nat → Response σ)
    (state : σ) : Visit TargetCursor σ :=
  visitUpTo block consume cursor.remaining cursor state

end TargetCursor

end PackedGraph
