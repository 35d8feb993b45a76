import PackedGraph.Relation.Topology

/-!
# Cursors of a view

A view caches the cursors with which it enumerates relationships. On a topology there are two: one
that moves from list to list, and one that is lent for the nodes without relationships, whose lists
are not stored. The latter never has anything to read.
-/

namespace PackedGraph

/-- The cursors on target lists that a view caches. -/
structure ListCursors where
  moving : TargetCursor
  empty : TargetCursor
  remaining_empty : empty.remaining = 0

/-- The cursor that enumerates the list of a node, which is one of the two. -/
inductive LentCursor where
  | moving (cursor : TargetCursor)
  | empty (cursor : TargetCursor) (h : cursor.remaining = 0)

namespace ListCursors

def exhausted : ListCursors := ⟨.exhausted, .exhausted, rfl⟩

/-- Lends a cursor at the start of the list of a node. -/
def lend (cursors : ListCursors) (topology : Topology) (node : Nat) : Except ReadError LentCursor :=
  match topology.index.slot node with
  | .error fault => .error (.fault fault)
  | .ok slot =>
    if slot.address = 0 then .ok (.empty cursors.empty cursors.remaining_empty)
    else
      match cursors.moving.moveTo topology.block slot.address slot.degree with
      | .error error => .error (.decode error)
      | .ok cursor => .ok (.moving cursor)

/-- Takes a cursor back that has been lent. -/
def takeBack (cursors : ListCursors) : LentCursor → ListCursors
  | .moving cursor => { cursors with moving := cursor }
  | .empty cursor h => { cursors with empty := cursor, remaining_empty := h }

end ListCursors

variable {σ : Type}

/-! A visit leaves a cursor with nothing to read where it is. -/

theorem TargetCursor.reader_visit_of_remaining_eq_zero {cursor : TargetCursor}
    (h : cursor.remaining = 0) (block : Pages UInt8) (consume : σ → Nat → Response σ) (state : σ) :
    (cursor.visit block consume state).reader = cursor := by
  rw [visit, h]
  rfl

theorem PairCursor.reader_visit_of_remaining_eq_zero {cursor : PairCursor}
    (h : cursor.targets.remaining = 0) (targets : Pages UInt8) (values : Pages ValueBits)
    (consume : σ → Nat → ValueBits → Response σ) (state : σ) :
    (cursor.visit targets values consume state).reader = cursor := by
  rw [visit, h]
  rfl

namespace LentCursor

def cursor : LentCursor → TargetCursor
  | moving cursor => cursor
  | empty cursor _ => cursor

/-- The lent cursor after it has moved, which it does only if it has something to read. -/
def movedTo (lent : LentCursor) (moved : TargetCursor)
    (h : lent.cursor.remaining = 0 → moved = lent.cursor) : LentCursor :=
  match lent with
  | moving _ => moving moved
  | empty _ hempty => empty moved ((congrArg TargetCursor.remaining (h hempty)).trans hempty)

/-- Hands the targets that are left to a consumer. -/
def visit (lent : LentCursor) (block : Pages UInt8) (consume : σ → Nat → Response σ) (state : σ) :
    Visit LentCursor σ :=
  let visit := lent.cursor.visit block consume state
  ⟨lent.movedTo visit.reader fun h ↦ TargetCursor.reader_visit_of_remaining_eq_zero h _ _ _,
    visit.state, visit.outcome⟩

/-- Hands the targets that are left to a consumer, each with its value. -/
def visitWithValues (lent : LentCursor) (values : ValueCursor) (targetBlock : Pages UInt8)
    (valueBlock : Pages ValueBits) (consume : σ → Nat → ValueBits → Response σ) (state : σ) :
    Visit (LentCursor × ValueCursor) σ :=
  let visit := (PairCursor.mk lent.cursor values).visit targetBlock valueBlock consume state
  ⟨(lent.movedTo visit.reader.targets fun h ↦
      congrArg PairCursor.targets (PairCursor.reader_visit_of_remaining_eq_zero h _ _ _ _),
    visit.reader.values), visit.state, visit.outcome⟩

end LentCursor

end PackedGraph
