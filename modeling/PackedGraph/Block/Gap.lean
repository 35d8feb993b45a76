import PackedGraph.Block.VarInt

/-!
# Gap encoding of sorted targets

The first target of a list is written as it is, every following one as its difference to the one
before it.
-/

namespace PackedGraph.Gap

/-- Appends the gaps of targets that follow `previous`, and counts the bytes. At a target that is
out of order the bytes written so far stay. -/
def appendAfter (buffer : Array UInt8) (previous : Nat) :
    List Nat → Array UInt8 × Except Fault Nat
  | [] => (buffer, .ok 0)
  | target :: targets =>
    if target < previous then (buffer, .error (.unsortedTargets target previous))
    else
      let code := VarInt.encode (target - previous)
      let (buffer, written) := appendAfter (buffer ++ code) target targets
      (buffer, written.map (code.length + ·))

/-- Appends the encoding of a list of targets, and counts the bytes. -/
def append (buffer : Array UInt8) (targets : List Nat) : Array UInt8 × Except Fault Nat :=
  appendAfter buffer 0 targets

/-- The number of bytes of the gaps of targets that follow `previous`. Gaps are taken modulo 2⁶⁴,
so that an unsorted list has a size, too. -/
def sizeAfter (previous : Nat) : List Nat → Nat
  | [] => 0
  | target :: targets =>
    VarInt.size ((target + UInt64.size - previous) % UInt64.size) + sizeAfter target targets

/-- The number of bytes of the encoding of a list of targets, found without encoding it. -/
def size (targets : List Nat) : Nat := sizeAfter 0 targets

end PackedGraph.Gap
