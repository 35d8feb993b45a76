import PackedGraph.Fault

/-!
# Programs on two label buffers

Labels are kept in two buffers, one of which is read in an iteration while the other one is
written. A program reads and writes single cells of the buffers, one at a time, and ends with a
result or an error. What a program does between two accesses depends only on what it has read.
-/

namespace PackedGraph

inductive Buffer where
  | first
  | second
deriving DecidableEq, Inhabited

namespace Buffer

/-- The buffer with the labels before an iteration. -/
def before (iteration : Nat) : Buffer := if iteration % 2 = 0 then first else second

/-- The buffer with the labels after an iteration. -/
def after (iteration : Nat) : Buffer := before (iteration + 1)

end Buffer

structure LabelBuffers where
  first : Array UInt64
  second : Array UInt64
deriving DecidableEq, Inhabited

namespace LabelBuffers

def labels (buffers : LabelBuffers) : Buffer → Array UInt64
  | .first => buffers.first
  | .second => buffers.second

def read (buffers : LabelBuffers) (buffer : Buffer) (cell : Nat) : Option UInt64 :=
  (buffers.labels buffer)[cell]?

/-- Writes a cell, unless there is none at that position. -/
def write (buffers : LabelBuffers) (buffer : Buffer) (cell : Nat) (label : UInt64) :
    LabelBuffers :=
  match buffer with
  | .first => { buffers with first := buffers.first.setIfInBounds cell label }
  | .second => { buffers with second := buffers.second.setIfInBounds cell label }

end LabelBuffers

inductive LabelProgram (ε α : Type) where
  | done (result : α)
  | fail (error : ε)
  | read (buffer : Buffer) (cell : Nat) (next : UInt64 → LabelProgram ε α)
  | write (buffer : Buffer) (cell : Nat) (label : UInt64) (next : LabelProgram ε α)

namespace LabelProgram

variable {ε α β : Type}

protected def bind (program : LabelProgram ε α) (f : α → LabelProgram ε β) : LabelProgram ε β :=
  match program with
  | done result => f result
  | fail error => fail error
  | read buffer cell next => read buffer cell fun label ↦ (next label).bind f
  | write buffer cell label next => write buffer cell label (next.bind f)

instance : Monad (LabelProgram ε) where
  pure := done
  bind := LabelProgram.bind

def readCell (buffer : Buffer) (cell : Nat) : LabelProgram ε UInt64 := read buffer cell done

def writeCell (buffer : Buffer) (cell : Nat) (label : UInt64) : LabelProgram ε Unit :=
  write buffer cell label (done ())

/-- Runs a program without interruption. Accessing a cell that does not exist is a fault. -/
def run (ofFault : Fault → ε) : LabelProgram ε α → LabelBuffers → LabelBuffers × Except ε α
  | done result, buffers => (buffers, .ok result)
  | fail error, buffers => (buffers, .error error)
  | read buffer cell next, buffers =>
    match buffers.read buffer cell with
    | some label => (next label).run ofFault buffers
    | none => (buffers, .error (ofFault .outOfBounds))
  | write buffer cell label next, buffers =>
    if (buffers.read buffer cell).isSome then next.run ofFault (buffers.write buffer cell label)
    else (buffers, .error (ofFault .outOfBounds))

end LabelProgram

end PackedGraph
