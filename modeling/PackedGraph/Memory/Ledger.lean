import PackedGraph.Fault

/-!
# Accounts of allocated bytes

A ledger keeps counters of allocated bytes, and an entry for each block whose bytes are charged to
a counter. An entry knows how many holders the block has. Its bytes are charged when it is opened,
and they are taken off again when its last holder drops it.

Charges may also go to no counter at all, in which case they are ignored.
-/

namespace PackedGraph

/-- The counter that bytes are charged to, if any. -/
abbrev Account := Option Nat

/-- Bytes charged to an account for as long as somebody holds them. -/
structure Charge where
  account : Account
  bytes : UInt64
  holders : Nat
deriving DecidableEq, Inhabited

structure Ledger where
  counters : Array UInt64
  charges : Array Charge

namespace Ledger

def empty : Ledger := ⟨#[], #[]⟩

/-- Opens a counter that stands at zero. -/
def openCounter (ledger : Ledger) : Ledger × Nat :=
  ({ ledger with counters := ledger.counters.push 0 }, ledger.counters.size)

/-- The number of bytes charged to an account. -/
def balance (ledger : Ledger) (account : Account) : UInt64 :=
  (account.bind (ledger.counters[·]?)).getD 0

/-- Adds bytes to an account, modulo 2⁶⁴. -/
def add (ledger : Ledger) (account : Account) (bytes : UInt64) : Ledger :=
  match account with
  | some counter => { ledger with counters := ledger.counters.modify counter (· + bytes) }
  | none => ledger

/-- Takes bytes off an account, modulo 2⁶⁴. Taking more than there are is a fault, but they are
taken all the same. -/
def remove (ledger : Ledger) (account : Account) (bytes : UInt64) : Ledger × Except Fault Unit :=
  match account with
  | some counter =>
    let balance := ledger.balance account
    let ledger := { ledger with counters := ledger.counters.modify counter (· - bytes) }
    if bytes ≤ balance then (ledger, .ok ())
    else (ledger, .error (.untrackedBytes bytes.toNat balance.toNat))
  | none => (ledger, .ok ())

/-- Charges bytes to an account, on behalf of a first holder. Returns the number of the charge. -/
def charge (ledger : Ledger) (account : Account) (bytes : UInt64) : Ledger × Nat :=
  let ledger := ledger.add account bytes
  ({ ledger with charges := ledger.charges.push ⟨account, bytes, 1⟩ }, ledger.charges.size)

/-- Adds a holder to a charge. -/
def hold (ledger : Ledger) (charge : Nat) : Ledger :=
  { ledger with
    charges := ledger.charges.modify charge fun c ↦ { c with holders := c.holders + 1 } }

/-- Takes a holder off a charge, and its bytes off the account when it was the last one. A charge
without holders has been settled, and nothing happens. -/
def drop (ledger : Ledger) (charge : Nat) : Ledger × Except Fault Unit :=
  match ledger.charges[charge]? with
  | some ⟨account, bytes, holders + 1⟩ =>
    let ledger :=
      { ledger with charges := ledger.charges.setIfInBounds charge ⟨account, bytes, holders⟩ }
    if holders = 0 then ledger.remove account bytes else (ledger, .ok ())
  | _ => (ledger, .ok ())

end Ledger

end PackedGraph
