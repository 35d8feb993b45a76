import PackedGraph.Store.Memory
import PackedGraph.View.Triangle

/-!
# The lifetime of views

A view holds its topology, its values and its block table from the moment it is made until it is
dropped. Releasing a block gives up the view's own hold on it and the hold of the block table.
-/

namespace PackedGraph

namespace PackedView

/-- The charge of the topology, while the view holds it. -/
def topologyCharge (view : PackedView) : Option Nat := view.topology.bind (·.topology.charge)

/-- The charge of the values, while the view holds them. -/
def valueCharge (view : PackedView) : Option Nat := view.values.bind (·.table.charge)

/-- Becomes a holder of all that a view holds. -/
def hold (view : PackedView) : StateM Memory Unit := do
  Memory.hold view.topologyCharge
  Memory.hold view.valueCharge
  Memory.holdTable view.blockTable

def drop (view : PackedView) : Memory.Update Unit := do
  Memory.drop view.topologyCharge
  Memory.drop view.valueCharge
  Memory.dropTable view.blockTable

/-- Releases the topology, if the view may release its data and still holds it. -/
def releaseTopology (view : PackedView) : Memory.Update PackedView := do
  if view.canRelease && view.topology.isSome then
    Memory.releaseTopology view.blockTable
    Memory.drop view.topologyCharge
    return { view with topology := none }
  else return view

/-- Releases the values, if the view may release its data and still holds them. -/
def releaseValues (view : PackedView) : Memory.Update PackedView := do
  match view.canRelease, view.values with
  | true, some reader =>
    Memory.releaseValues view.blockTable reader.position
    Memory.drop view.valueCharge
    return { view with values := none }
  | _, _ => return view

/-- Charges the blocks of a view that nobody else holds to an account. -/
def charge (view : PackedView) (account : Account) : StateM Memory PackedView := do
  let topology ← view.topology.mapM fun reader ↦ do
    let charge ← Memory.charge account reader.topology.sizeInBytes
    return { reader with topology := { reader.topology with charge := some charge } }
  let values ← view.values.mapM fun reader ↦ do
    let charge ← Memory.charge account reader.table.sizeInBytes
    return { reader with table := { reader.table with charge := some charge } }
  return { view with topology, values }

end PackedView

namespace View

/-- Changes the packed view below all filters, along with the memory. -/
def updateBase (f : PackedView → Memory.Update PackedView) : View → Memory.Update View
  | packed view => return packed (← f view)
  | filtered inner filter => return filtered (← inner.updateBase f) filter

/-- A copy of a view, which is a holder of its own. -/
def copy (view : View) : StateM Memory View := do
  view.base.hold
  return view.fresh

def drop (view : View) : Memory.Update Unit := view.base.drop

def setCanRelease (view : View) (canRelease : Bool) : View :=
  view.mapBase fun base ↦ { base with canRelease }

def releaseTopology (view : View) : Memory.Update View := view.updateBase PackedView.releaseTopology

def releaseValues (view : View) : Memory.Update View := view.updateBase PackedView.releaseValues

end View

namespace TriangleFinder

def hold (finder : TriangleFinder) : StateM Memory Unit := Memory.hold finder.topology.charge

def drop (finder : TriangleFinder) : Memory.Update Unit := Memory.drop finder.topology.charge

end TriangleFinder

end PackedGraph
