import PackedGraph.Memory.Ledger
import PackedGraph.Relation.Topology

/-!
# Memory shared by stores and views

A store keeps its blocks in a block table, which it shares with the views that are opened on it. A
block is held by the table, by views and by triangle finders, and its charge counts these holders.
The table itself lives as long as the store or one of those views does.
-/

namespace PackedGraph

structure BlockTable where
  /-- The topology, until it is released. -/
  topology : Option Topology
  /-- The values of each key, until they are released. -/
  values : Array (Option ValueTable)
  /-- The number of stores and views that share the table. -/
  holders : Nat

structure Memory where
  ledger : Ledger
  tables : Array BlockTable

namespace Memory

def empty : Memory := ⟨.empty, #[]⟩

/-- A change of the memory that may break a contract. -/
abbrev Update (α : Type) := ExceptT Fault (StateM Memory) α

/-- Charges bytes to an account. -/
def charge (account : Account) (bytes : Nat) : StateM Memory Nat :=
  modifyGet fun memory ↦
    let (ledger, charge) := memory.ledger.charge account (UInt64.ofNat bytes)
    (charge, { memory with ledger })

def hold (charge : Option Nat) : StateM Memory Unit :=
  modify fun memory ↦ { memory with ledger := charge.elim memory.ledger memory.ledger.hold }

def drop (charge : Option Nat) : Update Unit :=
  match charge with
  | none => pure ()
  | some charge => fun memory ↦
    let (ledger, outcome) := memory.ledger.drop charge
    (outcome, { memory with ledger })

/-- Opens a block table with a single holder. -/
def openTable (topology : Option Topology) (values : Array (Option ValueTable)) :
    StateM Memory Nat :=
  modifyGet fun memory ↦
    (memory.tables.size, { memory with tables := memory.tables.push ⟨topology, values, 1⟩ })

def holdTable (table : Nat) : StateM Memory Unit :=
  modify fun memory ↦
    { memory with
      tables := memory.tables.modify table fun t ↦ { t with holders := t.holders + 1 } }

/-- Empties the place of the topology in a block table. -/
def releaseTopology (table : Nat) : Update Unit := do
  let taken := (← get).tables[table]?.bind BlockTable.topology
  modify fun memory ↦
    { memory with tables := memory.tables.modify table fun t ↦ { t with topology := none } }
  taken.forM fun topology ↦ drop topology.charge

/-- Empties the place of the values at a position of a block table. -/
def releaseValues (table position : Nat) : Update Unit := do
  let taken := ((← get).tables[table]?.bind (·.values[position]?)).join
  modify fun memory ↦
    { memory with
      tables := memory.tables.modify table fun t ↦
        { t with values := t.values.setIfInBounds position none } }
  taken.forM fun values ↦ drop values.charge

/-- Takes a holder off a block table, and empties it when it was the last one. -/
def dropTable (table : Nat) : Update Unit := do
  match (← get).tables[table]? with
  | some ⟨_, values, holders + 1⟩ =>
    modify fun memory ↦
      { memory with tables := memory.tables.modify table fun t ↦ { t with holders } }
    if holders = 0 then
      releaseTopology table
      (List.range values.size).forM (releaseValues table)
  | _ => pure ()

end Memory

end PackedGraph
