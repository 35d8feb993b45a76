import PackedGraph.Store.Basic
import PackedGraph.View.Assembly
import PackedGraph.View.Filtering

/-!
# Sessions

A session is a sequence of calls on one builder and on named stores, views and triangle finders,
which share one memory. A value that is given a name already in use replaces the old one, which is
dropped once the new one is there. A call that fails leaves what it did before it failed.
-/

namespace PackedGraph

/-- Values by name, at most one for each name. -/
abbrev Named (α : Type) := List (String × α)

namespace Named

variable {α : Type}

def erase (values : Named α) (name : String) : Named α := values.filter (·.1 != name)

def insert (values : Named α) (name : String) (value : α) : Named α :=
  (name, value) :: values.erase name

end Named

structure Session where
  memory : Memory
  /-- The account that new builders may be told to use. -/
  account : Account
  builder : GraphBuilder
  stores : Named Store
  views : Named View
  finders : Named TriangleFinder

inductive SessionError where
  /-- There is no store, view or triangle finder of that name. -/
  | missing
  | build (error : BuildError)
  | view (error : ViewError)

/-- Some contract was broken. -/
def SessionError.broken (fault : Fault) : SessionError := .view (.read (.fault fault))

namespace Session

def empty : Session := ⟨.empty, none, .new, [], [], []⟩

abbrev Call (α : Type) := ExceptT SessionError (StateM Session) α

def fromExcept {ε α : Type} (toError : ε → SessionError) (result : Except ε α) : Call α :=
  MonadExcept.ofExcept (result.mapError toError)

/-- A change of the memory as a call. -/
def onMemory {ε α : Type} (toError : ε → SessionError) (update : ExceptT ε (StateM Memory) α) :
    Call α := do
  let session ← get
  let (result, memory) := update.run.run session.memory
  set { session with memory }
  fromExcept toError result

/-- A call on the builder. -/
def onBuilder {α : Type} (call : GraphBuilder.Call α) : Call α := do
  let session ← get
  let (result, builder) := call.run.run session.builder
  set { session with builder }
  fromExcept .build result

def store (name : String) : Call Store := do
  match (← get).stores.lookup name with
  | some store => return store
  | none => throw .missing

def view (name : String) : Call View := do
  match (← get).views.lookup name with
  | some view => return view
  | none => throw .missing

def finder (name : String) : Call TriangleFinder := do
  match (← get).finders.lookup name with
  | some finder => return finder
  | none => throw .missing

/-! ## Names -/

/-- Replaces a view by one that holds the same blocks. -/
def updateView (name : String) (view : View) : Call Unit :=
  modify fun session ↦ { session with views := session.views.insert name view }

def assignStore (name : String) (store : Store) : Call Unit := do
  let old := (← get).stores.lookup name
  modify fun session ↦ { session with stores := session.stores.insert name store }
  old.forM fun old ↦ onMemory .broken old.drop

def assignView (name : String) (view : View) : Call Unit := do
  let old := (← get).views.lookup name
  updateView name view
  old.forM fun old ↦ onMemory .broken old.drop

def assignFinder (name : String) (finder : TriangleFinder) : Call Unit := do
  let old := (← get).finders.lookup name
  modify fun session ↦ { session with finders := session.finders.insert name finder }
  old.forM fun old ↦ onMemory .broken old.drop

/-- Takes a view out of the session without dropping it. -/
def takeView (name : String) : Call View := do
  let view ← view name
  modify fun session ↦ { session with views := session.views.erase name }
  return view

/-- Drops what has a name, and counts it. -/
def drop (name : String) : Call Nat := do
  let session ← get
  set { session with
    stores := session.stores.erase name
    views := session.views.erase name
    finders := session.finders.erase name }
  let view := session.views.lookup name
  let store := session.stores.lookup name
  let finder := session.finders.lookup name
  view.forM fun view ↦ onMemory .broken view.drop
  store.forM fun store ↦ onMemory .broken store.drop
  finder.forM fun finder ↦ onMemory .broken finder.drop
  return view.toList.length + store.toList.length + finder.toList.length

/-! ## Building -/

/-- Sets the account of the session and of its builder: a new counter, or none at all. -/
def setAccount (isCounting : Bool) : Call Unit := do
  let session ← get
  let (ledger, account) :=
    if isCounting then
      let (ledger, counter) := session.memory.ledger.openCounter
      (ledger, some counter)
    else (session.memory.ledger, none)
  set { session with
    memory := { session.memory with ledger }
    account
    builder := { session.builder with account } }

/-- The bytes charged to the account of the session. -/
def trackedBytes : Call UInt64 := do
  let session ← get
  return session.memory.ledger.balance session.account

/-- Compresses what the builder has collected into a store, and starts with a new builder. -/
def build (name : String) : Call Store := do
  let builder := (← get).builder
  modify fun session ↦ { session with builder := .new }
  let graph ← fromExcept .build builder.compress
  let store ← onMemory .broken (graph.toStore builder.account)
  assignStore name store
  return store

/-! ## Views -/

/-- Opens a view on a store. -/
def openView (name : String) (key : Option String) (as : String) : Call Unit := do
  let store ← store name
  let view ← onMemory .view (store.view key)
  assignView as view

/-- Assembles a view from parts, and charges its blocks to the account of the session if asked. -/
def assemble (parts : ViewParts) (isCharged : Bool) (as : String) : Call Unit := do
  let assembled ← fromExcept .build (parts.assemble 0)
  let blockTable ← onMemory .broken (Memory.openTable none #[])
  let view := { assembled with blockTable }
  let account := (← get).account
  let view ← if isCharged then onMemory .broken (view.charge account) else pure view
  assignView as (.packed view)

def copy (name as : String) : Call Unit := do
  let view ← view name
  let copy ← onMemory .broken view.copy
  assignView as copy

/-- Moves a view into a filtered view. The view is dropped if that fails. -/
def filter (name : String) (labels : List String) (as : String) : Call Unit := do
  let view ← takeView name
  match view.filter labels with
  | .ok filtered => assignView as filtered
  | .error error =>
    onMemory .broken view.drop
    throw (.view error)

/-- Moves the underlying view out of a filtered view. -/
def unfilter (name as : String) : Call Unit := do
  match ← takeView name with
  | .filtered inner _ => assignView as inner
  | .packed view => assignView as (.packed view)

def setCanRelease (name : String) (canRelease : Bool) : Call Unit := do
  let view ← view name
  updateView name (view.setCanRelease canRelease)

def releaseTopology (name : String) : Call Unit := do
  let view ← view name
  updateView name (← onMemory .broken view.releaseTopology)

def releaseValues (name : String) : Call Unit := do
  let view ← view name
  updateView name (← onMemory .broken view.releaseValues)

/-- Answers a question on a view, and keeps the view that the question leaves. -/
def query {ε α : Type} (toError : ε → SessionError) (name : String)
    (question : View → View × Except ε α) : Call α := do
  let (view, answer) := question (← view name)
  updateView name view
  fromExcept toError answer

/-! ## Triangles -/

def findTriangles (name : String) (maxDegree : Nat) (as : String) : Call Unit := do
  let view ← view name
  let finder ← fromExcept .view (view.triangles maxDegree)
  onMemory .broken finder.hold
  assignFinder as finder

/-- The triangles of a node, and how looking for them ended. -/
def trianglesOf (name : String) (node : Nat) :
    Call (List Triangle × Except ReadError Unit) := do
  let (finder, found, outcome) := (← finder name).find node
  modify fun session ↦ { session with finders := session.finders.insert name finder }
  return (found, outcome)

end Session

end PackedGraph
