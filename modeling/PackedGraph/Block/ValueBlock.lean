import PackedGraph.Block.TargetCursor

/-!
# Blocks of relationship values

The values of a relationship property are kept as 64-bit patterns, in the order of the targets they
belong to. They have their own addresses, and a cursor on them moves along with the cursor on the
targets.

A pattern is taken for a number only where it is calculated with. What is not a number has many
patterns, which differ in sign and payload, and a block keeps them apart.
-/

namespace PackedGraph

/-- A relationship value: the bits of a number of double precision. -/
abbrev ValueBits := UInt64

namespace ValueBits

/-- The value of a relationship in a graph without a relationship property. -/
def one : ValueBits := Float.toBits 1.0

/-- What is not a number, with a positive sign and no payload. -/
def notANumber : ValueBits := Float.toBits (0.0 / 0.0)

end ValueBits

structure ValueBlockBuilder where
  pages : PagesBuilder ValueBits
  addresses : Array Nat

namespace ValueBlockBuilder

def new (shift : PageShift) : ValueBlockBuilder := ⟨.new shift, #[]⟩

/-- Adds the values of the next node. -/
def add (builder : ValueBlockBuilder) (values : Array ValueBits) : ValueBlockBuilder :=
  if values.isEmpty then { builder with addresses := builder.addresses.push 0 }
  else
    let (pages, address) := builder.pages.push values
    ⟨pages, builder.addresses.push address⟩

def build (builder : ValueBlockBuilder) : Pages ValueBits × Array Nat :=
  (builder.pages.build, builder.addresses)

end ValueBlockBuilder

structure ValueCursor where
  page : Nat
  index : Nat
  remaining : Nat
deriving DecidableEq, Inhabited

namespace ValueCursor

/-- A cursor with nothing to read. -/
def exhausted : ValueCursor := ⟨0, 0, 0⟩

/-- Moves a cursor to the `degree` values at an address, which must all lie in one page. Address
zero holds no values. -/
def moveTo (cursor : ValueCursor) (block : Pages ValueBits) (address degree : Nat) :
    Except DecodeError ValueCursor :=
  if address = 0 then
    if degree = 0 then .ok { cursor with remaining := 0 } else .error (.addressOutside address)
  else do
    let (page, index) ← block.locate address
    let size := (block.pages[page]?.map Array.size).getD 0
    if size < index + degree then .error (.endsInsideValue page size)
    else return ⟨page, index, degree⟩

def hasNext (cursor : ValueCursor) : Bool := cursor.remaining != 0

/-- The bits of the next value, and the cursor after it. -/
def nextBits (cursor : ValueCursor) (block : Pages ValueBits) :
    Except Fault (ValueBits × ValueCursor) :=
  if cursor.remaining = 0 then .error .cursorExhausted
  else
    match block.pages[cursor.page]?.bind (·[cursor.index]?) with
    | some bits => .ok (bits, ⟨cursor.page, cursor.index + 1, cursor.remaining - 1⟩)
    | none => .error .outOfBounds

end ValueCursor

/-- A cursor on targets and a cursor on their values. -/
structure PairCursor where
  targets : TargetCursor
  values : ValueCursor

namespace PairCursor

variable {σ : Type}

/-- Hands up to `count` targets to a consumer, each with its value. -/
def visitUpTo (targets : Pages UInt8) (values : Pages ValueBits)
    (consume : σ → Nat → ValueBits → Response σ) :
    (count : Nat) → PairCursor → σ → Visit PairCursor σ
  | 0, cursor, state => ⟨cursor, state, .ok ()⟩
  | count + 1, cursor, state =>
    match cursor.targets.next targets with
    | .error error => ⟨cursor, state, .error error⟩
    | .ok (target, moved) =>
      let cursor := { cursor with targets := moved }
      match cursor.values.nextBits values with
      | .error fault => ⟨cursor, state, .error (.fault fault)⟩
      | .ok (bits, moved) =>
        let cursor := { cursor with values := moved }
        match consume state target bits with
        | .more state => visitUpTo targets values consume count cursor state
        | .enough state => ⟨cursor, state, .ok ()⟩
        | .broken fault => ⟨cursor, state, .error (.fault fault)⟩

/-- Hands the targets that are left to a consumer, each with its value. -/
def visit (cursor : PairCursor) (targets : Pages UInt8) (values : Pages ValueBits)
    (consume : σ → Nat → ValueBits → Response σ) (state : σ) : Visit PairCursor σ :=
  visitUpTo targets values consume cursor.targets.remaining cursor state

end PairCursor

end PackedGraph
