import PackedGraph.Proofs.Store.Memory
import PackedGraph.Proofs.Store.Views
import PackedGraph.Proofs.View.Overdraft

/-!
# Owners of blocks

A store owns a share of its block table, a view owns blocks and a share of a block table, and a
triangle finder owns a topology. A memory keeps serving its owners when one of them is added,
dropped, or releases a block.
-/

namespace PackedGraph

/-- What an owner holds: shares of block tables, and blocks. -/
structure Owner where
  tables : List Nat
  blocks : List Block

namespace PackedView

def topologyBlock (view : PackedView) : Option Block :=
  view.topology.map fun reader ↦ .topology reader.topology

def valuesBlock (view : PackedView) : Option Block :=
  view.values.map fun reader ↦ .values reader.table

def owner (view : PackedView) : Owner :=
  ⟨[view.blockTable], view.topologyBlock.toList ++ view.valuesBlock.toList⟩

theorem topologyCharge_eq (view : PackedView) :
    view.topologyCharge = view.topologyBlock.bind Block.charge := by
  unfold topologyCharge topologyBlock
  cases view.topology <;> rfl

theorem valueCharge_eq (view : PackedView) :
    view.valueCharge = view.valuesBlock.bind Block.charge := by
  unfold valueCharge valuesBlock
  cases view.values <;> rfl

end PackedView

def View.owner (view : View) : Owner := view.base.owner

def Store.owner (store : Store) : Owner := ⟨[store.blockTable], []⟩

def TriangleFinder.owner (finder : TriangleFinder) : Owner := ⟨[], [.topology finder.topology]⟩

namespace Memory

theorem Accounts.holdOption {memory : Memory} {blocks : List Block} (h : memory.Accounts blocks)
    (block : Option Block) (hblock : ∀ b ∈ block, b ∈ blocks ++ slots memory.tables) :
    ∃ ledger, (Memory.hold (block.bind Block.charge)).run memory = ((), ⟨ledger, memory.tables⟩) ∧
      Accounts ⟨ledger, memory.tables⟩ (block.toList ++ blocks) ∧
      ledger.Extends memory.ledger := by
  cases block with
  | none => exact ⟨memory.ledger, rfl, h, .refl _⟩
  | some block => exact h.hold (hblock block rfl)

theorem Accounts.dropOption {memory : Memory} {block : Option Block} {blocks : List Block}
    (h : memory.Accounts (block.toList ++ blocks)) :
    ∃ ledger, (Memory.drop (block.bind Block.charge)).run.run memory =
        (.ok (), ⟨ledger, memory.tables⟩) ∧
      Accounts ⟨ledger, memory.tables⟩ blocks ∧ ledger.Extends memory.ledger := by
  cases block with
  | none => exact ⟨memory.ledger, rfl, h, .refl _⟩
  | some block => exact Accounts.drop h

/-- A memory serves some owners. -/
structure Serves (memory : Memory) (owners : List Owner) : Prop where
  accounts : memory.Accounts (owners.flatMap Owner.blocks)
  shares : Shares memory.tables (owners.flatMap Owner.tables)

namespace Serves

variable {memory : Memory} {owners others : List Owner}

theorem perm (h : memory.Serves owners) (hperm : owners.Perm others) : memory.Serves others where
  accounts := h.accounts.perm (hperm.flatMap_right _)
  shares := h.shares.perm (hperm.flatMap_right _)

theorem empty : Memory.empty.Serves [] where
  accounts := Ledger.Accounts.empty
  shares := ⟨by simp [Memory.empty], by simp [Memory.empty], nofun⟩

/-- A view may become another holder of what is held already. -/
theorem hold (h : memory.Serves owners) {view : PackedView}
    (htable : view.blockTable ∈ owners.flatMap Owner.tables)
    (hblocks : ∀ block ∈ view.owner.blocks,
      block ∈ owners.flatMap Owner.blocks ++ slots memory.tables) :
    ∃ ledger, view.hold.run memory = ((), ⟨ledger, memory.tables.modify view.blockTable
          fun table ↦ { table with holders := table.holders + 1 }⟩) ∧
      Serves ⟨ledger, memory.tables.modify view.blockTable
        fun table ↦ { table with holders := table.holders + 1 }⟩ (view.owner :: owners) ∧
      ledger.Extends memory.ledger := by
  obtain ⟨first, hfirst, haccounts, hextends⟩ := h.accounts.holdOption view.topologyBlock
    fun block hblock ↦ hblocks block (List.mem_append_left _ (Option.mem_toList.mpr hblock))
  obtain ⟨second, hsecond, haccounts', hextends'⟩ := haccounts.holdOption view.valuesBlock
    fun block hblock ↦ by
      rw [List.append_assoc]
      exact List.mem_append_right _
        (hblocks block (List.mem_append_right _ (Option.mem_toList.mpr hblock)))
  refine ⟨second, ?_, ⟨?_, h.shares.hold htable⟩, hextends'.trans hextends⟩
  · unfold PackedView.hold
    rw [PackedView.topologyCharge_eq, PackedView.valueCharge_eq, StateT.run_bind, hfirst]
    change (Memory.hold (view.valuesBlock.bind Block.charge) >>= fun _ ↦
      Memory.holdTable view.blockTable).run _ = _
    rw [StateT.run_bind, hsecond]
    rfl
  · refine (haccounts'.modify view.blockTable
      (f := fun table ↦ { table with holders := table.holders + 1 }) fun _ _ ↦ rfl).perm ?_
    rw [List.flatMap_cons]
    unfold PackedView.owner
    calc _ = (view.valuesBlock.toList ++ view.topologyBlock.toList) ++ _ :=
          (List.append_assoc _ _ _).symm
      _ |>.Perm _ := List.perm_append_comm.append_right _

/-- Dropping a view. -/
theorem drop {view : PackedView} (h : memory.Serves (view.owner :: owners)) :
    ∃ ledger, view.drop.run.run memory =
        (.ok (), ⟨ledger, memory.tables.modify view.blockTable BlockTable.dropHolder⟩) ∧
      Serves ⟨ledger, memory.tables.modify view.blockTable BlockTable.dropHolder⟩ owners ∧
      ledger.Extends memory.ledger := by
  have haccounts := h.accounts
  rw [List.flatMap_cons, PackedView.owner, List.append_assoc] at haccounts
  obtain ⟨first, hfirst, haccounts, hextends⟩ := haccounts.dropOption
  obtain ⟨second, hsecond, haccounts, hextends'⟩ := haccounts.dropOption
  obtain ⟨third, hthird, haccounts, hextends''⟩ := haccounts.dropTable view.blockTable
  refine ⟨third, ?_, ⟨haccounts, h.shares.drop⟩, hextends''.trans (hextends'.trans hextends)⟩
  unfold PackedView.drop
  rw [PackedView.topologyCharge_eq, PackedView.valueCharge_eq]
  simp only [run_bind, hfirst, hsecond]
  exact hthird

/-- A view that may release its topology gives it up, along with the block table. -/
theorem releaseTopology {view : PackedView} (h : memory.Serves (view.owner :: owners))
    (hreleases : (view.canRelease && view.topology.isSome) = true) :
    ∃ ledger, view.releaseTopology.run.run memory = (.ok { view with topology := none },
        ⟨ledger, memory.tables.modify view.blockTable BlockTable.releaseTopology⟩) ∧
      Serves ⟨ledger, memory.tables.modify view.blockTable BlockTable.releaseTopology⟩
        (PackedView.owner { view with topology := none } :: owners) ∧
      ledger.Extends memory.ledger := by
  have haccounts := h.accounts
  rw [List.flatMap_cons, PackedView.owner, List.append_assoc] at haccounts
  obtain ⟨first, hfirst, haccounts, hextends⟩ := haccounts.releaseTopology view.blockTable
  obtain ⟨second, hsecond, haccounts, hextends'⟩ := haccounts.dropOption
  refine ⟨second, ?_, ⟨haccounts, h.shares.release _ ?_ ?_⟩, hextends'.trans hextends⟩
  · unfold PackedView.releaseTopology
    rw [if_pos hreleases, PackedView.topologyCharge_eq]
    simp only [run_bind, hfirst, hsecond]
    rfl
  · exact fun _ ↦ rfl
  · exact BlockTable.blocks_releaseTopology_subperm

theorem releaseValues {view : PackedView} (h : memory.Serves (view.owner :: owners))
    (hrelease : view.canRelease = true) {reader : ValueReader}
    (hreader : view.values = some reader) :
    ∃ ledger, view.releaseValues.run.run memory = (.ok { view with values := none },
        ⟨ledger, memory.tables.modify view.blockTable (·.releaseValues reader.position)⟩) ∧
      Serves ⟨ledger, memory.tables.modify view.blockTable (·.releaseValues reader.position)⟩
        (PackedView.owner { view with values := none } :: owners) ∧
      ledger.Extends memory.ledger := by
  have haccounts := h.accounts
  rw [List.flatMap_cons, PackedView.owner, List.append_assoc] at haccounts
  obtain ⟨first, hfirst, haccounts, hextends⟩ :=
    haccounts.releaseValues view.blockTable reader.position
  obtain ⟨second, hsecond, haccounts, hextends'⟩ :=
    (haccounts.perm (List.perm_append_comm_assoc _ _ _)).dropOption
  have hnow : (PackedView.owner { view with values := none } :: owners).flatMap Owner.blocks =
      view.topologyBlock.toList ++ owners.flatMap Owner.blocks :=
    congrArg (· ++ owners.flatMap Owner.blocks) (List.append_nil _)
  refine ⟨second, ?_, ⟨hnow ▸ haccounts, ?_⟩, hextends'.trans hextends⟩
  · unfold PackedView.releaseValues
    rw [hrelease, hreader, PackedView.valueCharge_eq]
    simp only [run_bind, hfirst, hsecond]
    rfl
  · exact h.shares.release view.blockTable (f := (·.releaseValues reader.position))
      (fun _ ↦ rfl) (BlockTable.blocks_releaseValues_subperm reader.position)

end Serves

end Memory

/-! ## Views -/

namespace PackedView

/-- What is left of a view when it releases its topology. -/
def withoutTopology (view : PackedView) : PackedView :=
  if view.canRelease then { view with topology := none } else view

/-- What is left of a view when it releases its values. -/
def withoutValues (view : PackedView) : PackedView :=
  if view.canRelease then { view with values := none } else view

/-- What a view that releases its topology leaves in the block tables. -/
def tablesWithoutTopology (view : PackedView) (tables : Array BlockTable) : Array BlockTable :=
  if view.canRelease && view.topology.isSome then
    tables.modify view.blockTable BlockTable.releaseTopology
  else tables

/-- What a view that releases its values leaves in the block tables. -/
def tablesWithoutValues (view : PackedView) (tables : Array BlockTable) : Array BlockTable :=
  match view.canRelease, view.values with
  | true, some reader => tables.modify view.blockTable (·.releaseValues reader.position)
  | _, _ => tables

theorem owner_fresh (view : PackedView) : view.fresh.owner = view.owner := by
  unfold owner fresh topologyBlock valuesBlock
  simp only [Option.map_map]
  rfl

end PackedView

namespace View

theorem base_mapBase (f : PackedView → PackedView) (view : View) :
    (view.mapBase f).base = f view.base := by
  induction view with
  | packed view => rfl
  | filtered inner filter ih => exact ih

theorem owner_fresh (view : View) : view.fresh.owner = view.owner := by
  unfold owner fresh
  rw [base_mapBase]
  exact view.base.owner_fresh

theorem owner_of_fresh {view other : View} (h : view.fresh = other.fresh) :
    view.owner = other.owner := by
  rw [← view.owner_fresh, h, other.owner_fresh]

theorem owner_setCanRelease (view : View) (canRelease : Bool) :
    (view.setCanRelease canRelease).owner = view.owner := by
  unfold owner setCanRelease
  rw [base_mapBase]
  rfl

/-- Changing the packed view below all filters. -/
theorem run_updateBase {f : PackedView → Memory.Update PackedView} {g : PackedView → PackedView}
    {view : View} {memory after : Memory}
    (h : (f view.base).run.run memory = (.ok (g view.base), after)) :
    (view.updateBase f).run.run memory = (.ok (view.mapBase g), after) := by
  induction view with
  | packed view =>
    have hbase : (f view).run.run memory = (.ok (g view), after) := h
    simp only [updateBase, run_bind, hbase, run_pure]
    rfl
  | filtered inner filter ih =>
    simp only [updateBase, run_bind, ih h, run_pure]
    rfl

theorem mapBase_eq_self {f : PackedView → PackedView} {view : View} (h : f view.base = view.base) :
    view.mapBase f = view := by
  induction view with
  | packed view => exact congrArg packed h
  | filtered inner filter ih => exact congrArg (filtered · filter) (ih h)

end View

namespace PackedView

variable {view : PackedView}

theorem withoutTopology_eq_self (h : (view.canRelease && view.topology.isSome) = false) :
    view.withoutTopology = view := by
  obtain ⟨ids, columns, topology, values, relationshipCount, isUndirected, hasValues, canRelease,
    blockTable⟩ := view
  cases canRelease with
  | false => rfl
  | true =>
    cases topology with
    | none => rfl
    | some reader => exact absurd h nofun

theorem withoutValues_eq_self (h : (view.canRelease && view.values.isSome) = false) :
    view.withoutValues = view := by
  obtain ⟨ids, columns, topology, values, relationshipCount, isUndirected, hasValues, canRelease,
    blockTable⟩ := view
  cases canRelease with
  | false => rfl
  | true =>
    cases values with
    | none => rfl
    | some reader => exact absurd h nofun

theorem blockTable_withoutTopology (view : PackedView) :
    view.withoutTopology.blockTable = view.blockTable := by
  unfold withoutTopology
  split <;> rfl

theorem blockTable_withoutValues (view : PackedView) :
    view.withoutValues.blockTable = view.blockTable := by
  unfold withoutValues
  split <;> rfl

theorem tablesWithoutValues_of_not (h : (view.canRelease && view.values.isSome) = false)
    (tables : Array BlockTable) : view.tablesWithoutValues tables = tables := by
  unfold tablesWithoutValues
  split
  · next hrelease hvalues =>
    rw [hrelease, hvalues] at h
    exact absurd h nofun
  · rfl

theorem tablesWithoutValues_of_reader (h : view.canRelease = true) {reader : ValueReader}
    (hreader : view.values = some reader) (tables : Array BlockTable) :
    view.tablesWithoutValues tables =
      tables.modify view.blockTable (·.releaseValues reader.position) := by
  unfold tablesWithoutValues
  rw [h, hreader]

theorem run_releaseTopology_of_not (h : (view.canRelease && view.topology.isSome) = false)
    (memory : Memory) :
    view.releaseTopology.run.run memory = (.ok view.withoutTopology, memory) := by
  unfold releaseTopology
  rw [h, withoutTopology_eq_self h]
  rfl

theorem run_releaseValues_of_not (h : (view.canRelease && view.values.isSome) = false)
    (memory : Memory) : view.releaseValues.run.run memory = (.ok view.withoutValues, memory) := by
  rw [withoutValues_eq_self h]
  unfold releaseValues
  cases hrelease : view.canRelease with
  | false => rfl
  | true =>
    cases hvalues : view.values with
    | none => rfl
    | some reader =>
      rw [hrelease, hvalues] at h
      exact absurd h nofun

end PackedView

namespace Memory.Serves

variable {memory : Memory} {owners : List Owner} {view : View}

/-- A view releases its topology if it may, and otherwise nothing happens. -/
theorem view_releaseTopology (h : memory.Serves (view.owner :: owners)) :
    ∃ ledger, view.releaseTopology.run.run memory =
        (.ok (view.mapBase PackedView.withoutTopology),
          ⟨ledger, view.base.tablesWithoutTopology memory.tables⟩) ∧
      Serves ⟨ledger, view.base.tablesWithoutTopology memory.tables⟩
        ((view.mapBase PackedView.withoutTopology).owner :: owners) ∧
      ledger.Extends memory.ledger := by
  unfold View.releaseTopology View.owner PackedView.tablesWithoutTopology
  rw [View.base_mapBase]
  cases hreleases : view.base.canRelease && view.base.topology.isSome with
  | false =>
    refine ⟨memory.ledger, ?_, ?_, .refl _⟩
    · exact View.run_updateBase (PackedView.run_releaseTopology_of_not hreleases memory)
    · rw [PackedView.withoutTopology_eq_self hreleases]
      exact h
  | true =>
    obtain ⟨ledger, hrun, hserves, hextends⟩ := h.releaseTopology hreleases
    have hwithout : view.base.withoutTopology = { view.base with topology := none } :=
      if_pos (Bool.and_eq_true_iff.mp hreleases).1
    rw [← hwithout] at hrun hserves
    exact ⟨ledger, View.run_updateBase hrun, hserves, hextends⟩

theorem view_releaseValues (h : memory.Serves (view.owner :: owners)) :
    ∃ ledger, view.releaseValues.run.run memory =
        (.ok (view.mapBase PackedView.withoutValues),
          ⟨ledger, view.base.tablesWithoutValues memory.tables⟩) ∧
      Serves ⟨ledger, view.base.tablesWithoutValues memory.tables⟩
        ((view.mapBase PackedView.withoutValues).owner :: owners) ∧
      ledger.Extends memory.ledger := by
  unfold View.releaseValues View.owner
  rw [View.base_mapBase]
  cases hreleases : view.base.canRelease && view.base.values.isSome with
  | false =>
    rw [PackedView.tablesWithoutValues_of_not hreleases]
    refine ⟨memory.ledger, ?_, ?_, .refl _⟩
    · exact View.run_updateBase (PackedView.run_releaseValues_of_not hreleases memory)
    · rw [PackedView.withoutValues_eq_self hreleases]
      exact h
  | true =>
    obtain ⟨hrelease, hsome⟩ := Bool.and_eq_true_iff.mp hreleases
    obtain ⟨reader, hreader⟩ := Option.isSome_iff_exists.mp hsome
    obtain ⟨ledger, hrun, hserves, hextends⟩ := h.releaseValues hrelease hreader
    have hwithout : view.base.withoutValues = { view.base with values := none } := if_pos hrelease
    rw [← hwithout] at hrun hserves
    rw [PackedView.tablesWithoutValues_of_reader hrelease hreader]
    exact ⟨ledger, View.run_updateBase hrun, hserves, hextends⟩

/-- A copy of a view is another holder of what the view holds. -/
theorem copy (h : memory.Serves owners) (hview : view.owner ∈ owners) :
    ∃ ledger, view.copy.run memory = (view.fresh, ⟨ledger, memory.tables.modify view.base.blockTable
          fun table ↦ { table with holders := table.holders + 1 }⟩) ∧
      Serves ⟨ledger, memory.tables.modify view.base.blockTable
        fun table ↦ { table with holders := table.holders + 1 }⟩ (view.fresh.owner :: owners) ∧
      ledger.Extends memory.ledger := by
  have htable : view.base.blockTable ∈ owners.flatMap Owner.tables :=
    List.mem_flatMap.mpr ⟨view.owner, hview, List.mem_singleton_self _⟩
  obtain ⟨ledger, hrun, hserves, hextends⟩ := h.hold htable fun block hblock ↦
    List.mem_append_left _ (List.mem_flatMap.mpr ⟨view.owner, hview, hblock⟩)
  refine ⟨ledger, ?_, ?_, hextends⟩
  · unfold View.copy
    rw [StateT.run_bind, hrun]
    rfl
  · rw [view.owner_fresh]
    exact hserves

end Memory.Serves

/-! ## Triangle finders, counters and stores -/

namespace Store

/-- The blocks that are found for a key are put together to a view, or rejected. -/
theorem opened_or_rejected (store : Store) (topology : Topology) (values : Option ValueTable)
    (position : Nat) :
    let assembled := Except.mapError (fun fault ↦ ViewError.read (.fault fault)) (do
      let relationships ← Relationships.ofBlocks topology values
      PackedView.ofBlocks store.ids store.columns relationships store.blockTable position)
    assembled = .ok (store.opened topology values position) ∨
      ∃ error : ViewError, assembled = .error error ∧ error.isOverdraft = false := by
  intro assembled
  have hofBlocks : Relationships.ofBlocks topology values = .ok ⟨topology, values⟩ ∨
      ∃ fault, Relationships.ofBlocks topology values = .error fault ∧
        fault.isOverdraft = false := by
    unfold Relationships.ofBlocks
    split
    · exact .inl rfl
    · split
      · exact .inr ⟨_, rfl, rfl⟩
      · split
        · exact .inr ⟨_, rfl, rfl⟩
        · exact .inl rfl
  unfold assembled
  rcases hofBlocks with hofBlocks | ⟨fault, hofBlocks, hfault⟩
  · rw [hofBlocks]
    change Except.mapError _ (PackedView.ofBlocks _ _ _ _ _) = _ ∨ ∃ error,
      Except.mapError _ (PackedView.ofBlocks _ _ _ _ _) = _ ∧ _
    unfold PackedView.ofBlocks
    dsimp only
    split
    · exact .inr ⟨_, rfl, rfl⟩
    · split
      · exact .inr ⟨_, rfl, rfl⟩
      · exact .inl rfl
  · rw [hofBlocks]
    exact .inr ⟨_, rfl, hfault⟩

theorem avoids_blocks (store : Store) (memory : Memory) (key : Option String) :
    Avoids ViewError.isOverdraft (store.blocks memory key) := by
  unfold blocks
  dsimp only
  split
  · split
    · exact Avoids.ok _
    · split
      · split
        · exact Avoids.ok _
        · exact Avoids.error rfl
      · exact Avoids.error rfl
  · exact Avoids.error rfl

end Store

namespace CompressedGraph

/-- A graph without the charges of its blocks. -/
def uncharged (graph : CompressedGraph) : CompressedGraph :=
  { graph with
    topology := { graph.topology with charge := none }
    values := graph.values.map fun entry ↦ (entry.1, { entry.2 with charge := none }) }

/-- The store of a graph whose blocks are in the block table of a number. -/
def storeAt (graph : CompressedGraph) (number : Nat) : Store where
  ids := graph.ids
  columns := graph.columns
  keys := graph.values.map Prod.fst
  relationshipCount := graph.topology.elementCount
  orientation := graph.topology.orientation
  blockTable := number

/-- The block table of a graph when it has been put into a store. -/
def blockTable (graph : CompressedGraph) : BlockTable :=
  ⟨some graph.topology, (graph.values.map fun entry ↦ some entry.2).toArray, 1⟩

theorem blocks_blockTable (graph : CompressedGraph) :
    graph.blockTable.blocks =
      .topology graph.topology :: graph.values.map fun entry ↦ .values entry.2 := by
  simp [blockTable, BlockTable.blocks]

theorem keys_uncharged (graph : CompressedGraph) :
    graph.uncharged.values.map Prod.fst = graph.values.map Prod.fst := by
  unfold uncharged
  rw [List.map_map]
  rfl

end CompressedGraph

namespace Memory

variable {memory : Memory} {owners : List Owner}

theorem Serves.hold_finder (h : memory.Serves owners) (finder : TriangleFinder)
    (hblock : .topology finder.topology ∈ owners.flatMap Owner.blocks ++ slots memory.tables) :
    ∃ ledger, finder.hold.run memory = ((), ⟨ledger, memory.tables⟩) ∧
      Serves ⟨ledger, memory.tables⟩ (finder.owner :: owners) ∧ ledger.Extends memory.ledger := by
  obtain ⟨ledger, hrun, haccounts, hextends⟩ := h.accounts.hold hblock
  exact ⟨ledger, hrun, ⟨haccounts, h.shares⟩, hextends⟩

theorem Serves.drop_finder {finder : TriangleFinder}
    (h : memory.Serves (finder.owner :: owners)) :
    ∃ ledger, finder.drop.run.run memory = (.ok (), ⟨ledger, memory.tables⟩) ∧
      Serves ⟨ledger, memory.tables⟩ owners ∧ ledger.Extends memory.ledger := by
  obtain ⟨ledger, hrun, haccounts, hextends⟩ := h.accounts.drop
  exact ⟨ledger, hrun, ⟨haccounts, h.shares⟩, hextends⟩

theorem Serves.drop_store {store : Store} (h : memory.Serves (store.owner :: owners)) :
    ∃ ledger, store.drop.run.run memory =
        (.ok (), ⟨ledger, memory.tables.modify store.blockTable BlockTable.dropHolder⟩) ∧
      Serves ⟨ledger, memory.tables.modify store.blockTable BlockTable.dropHolder⟩ owners ∧
      ledger.Extends memory.ledger := by
  obtain ⟨ledger, hrun, haccounts, hextends⟩ := h.accounts.dropTable store.blockTable
  exact ⟨ledger, hrun, ⟨haccounts, h.shares.drop⟩, hextends⟩

theorem Serves.openCounter (h : memory.Serves owners) :
    Serves ⟨memory.ledger.openCounter.1, memory.tables⟩ owners ∧
      memory.ledger.openCounter.1.Extends memory.ledger := by
  obtain ⟨haccounts, hextends⟩ := Ledger.Accounts.openCounter h.accounts
  exact ⟨⟨haccounts, h.shares⟩, hextends⟩

/-- Charging the values of all keys, which have room on the account. -/
theorem Accounts.mapM_chargeTable {account : Account} {blocks : List Block}
    (h : memory.Accounts blocks)
    (haccount : ∀ counter, account = some counter → counter < memory.ledger.counters.size)
    (entries : List (String × ValueTable))
    (hfits : (memory.ledger.balance account).toNat +
      (entries.map fun entry ↦ entry.2.sizeInBytes).sum < 2 ^ 64) :
    ∃ (charged : List (String × ValueTable)) (ledger : Ledger),
      charged.map (fun entry ↦ (entry.1, { entry.2 with charge := none })) =
        entries.map (fun entry ↦ (entry.1, { entry.2 with charge := none })) ∧
      (entries.mapM (chargeTable account)).run memory =
        (charged.map fun entry ↦ some entry.2, ⟨ledger, memory.tables⟩) ∧
      Accounts ⟨ledger, memory.tables⟩ (charged.map (fun entry ↦ .values entry.2) ++ blocks) ∧
      ledger.Extends memory.ledger ∧
      ∀ entry ∈ charged, ledger.Charges account (.values entry.2) := by
  induction entries generalizing memory blocks with
  | nil => exact ⟨[], memory.ledger, rfl, rfl, h, .refl _, nofun⟩
  | cons entry entries ih =>
    rw [List.map_cons, List.sum_cons] at hfits
    let table : ValueTable := { entry.2 with charge := some memory.ledger.charges.size }
    have hroom : (memory.ledger.balance account).toNat + (Block.values table).sizeInBytes <
        2 ^ 64 := by
      change _ + entry.2.sizeInBytes < _
      omega
    obtain ⟨ledger, hrun, haccounts, hextends, hcharged, hbalance⟩ := h.charge haccount hroom rfl
    have hbalance' : (ledger.balance account).toNat ≤
        (memory.ledger.balance account).toNat + entry.2.sizeInBytes := hbalance
    obtain ⟨charged, later, hsame, hrest, haccounts', hextends', hcharged'⟩ := ih haccounts
      (fun counter hcounter ↦ (haccount counter hcounter).trans_le hextends.size_counters)
      (by simp only; omega)
    refine ⟨(entry.1, table) :: charged, later, congrArg (List.cons _) hsame, ?_, ?_,
      hextends'.trans hextends, ?_⟩
    · have hentry : (chargeTable account entry).run memory =
          (some table, ⟨ledger, memory.tables⟩) := by
        have hcharge : (Memory.charge account entry.2.sizeInBytes).run memory =
          (memory.ledger.charges.size, ⟨ledger, memory.tables⟩) := hrun
        unfold chargeTable
        rw [StateT.run_bind, hcharge]
        rfl
      rw [List.mapM_cons, StateT.run_bind, hentry]
      exact congrArg (fun result : List (Option ValueTable) × Memory ↦
        (some table :: result.1, result.2)) hrest
    · exact haccounts'.perm List.perm_middle
    · rw [List.forall_mem_cons]
      exact ⟨hextends'.charges hcharged, hcharged'⟩

theorem slots_push (tables : Array BlockTable) (table : BlockTable) :
    slots (tables.push table) = slots tables ++ table.blocks := by
  simp [slots]

/-- A new store holds a new block table with the blocks of the graph, and all of them are charged to
the account. -/
theorem Serves.toStore (h : memory.Serves owners) {account : Account} {graph : CompressedGraph}
    (haccount : ∀ counter, account = some counter → counter < memory.ledger.counters.size)
    (hfits : (memory.ledger.balance account).toNat + graph.sizeInBytes < 2 ^ 64) :
    ∃ (charged : CompressedGraph) (ledger : Ledger), charged.uncharged = graph.uncharged ∧
      (graph.toStore account).run memory =
        (charged.storeAt memory.tables.size, ⟨ledger, memory.tables.push charged.blockTable⟩) ∧
      (∀ block ∈ charged.blockTable.blocks, ledger.Charges account block) ∧
      Serves ⟨ledger, memory.tables.push charged.blockTable⟩
        ((charged.storeAt memory.tables.size).owner :: owners) ∧
      ledger.Extends memory.ledger := by
  unfold CompressedGraph.sizeInBytes at hfits
  let topology : Topology := { graph.topology with charge := some memory.ledger.charges.size }
  have hroom : (memory.ledger.balance account).toNat + (Block.topology topology).sizeInBytes <
      2 ^ 64 := by
    change _ + graph.topology.sizeInBytes < _
    omega
  obtain ⟨first, hrun, haccounts, hextends, hcharged, hbalance⟩ :=
    h.accounts.charge haccount hroom rfl
  have hbalance' : (first.balance account).toNat ≤
      (memory.ledger.balance account).toNat + graph.topology.sizeInBytes := hbalance
  obtain ⟨values, ledger, hsame, hrest, haccounts', hextends', hcharged'⟩ :=
    haccounts.mapM_chargeTable
      (fun counter hcounter ↦ (haccount counter hcounter).trans_le hextends.size_counters)
      graph.values (by simp only; omega)
  have htopology : (Memory.charge account graph.topology.sizeInBytes).run memory =
      (memory.ledger.charges.size, ⟨first, memory.tables⟩) := hrun
  let charged : CompressedGraph := { graph with topology, values }
  have huncharged : charged.uncharged = graph.uncharged :=
    congrArg (fun values ↦ { graph.uncharged with values }) hsame
  have hkeys : graph.values.map Prod.fst = values.map Prod.fst := by
    rw [← graph.keys_uncharged, ← huncharged, charged.keys_uncharged]
  refine ⟨charged, ledger, huncharged, ?_, ?_, ⟨?_, ?_⟩, hextends'.trans hextends⟩
  · unfold CompressedGraph.toStore
    rw [StateT.run_bind, htopology, hkeys]
    change (graph.values.mapM (chargeTable account) >>= _).run ⟨first, memory.tables⟩ = _
    rw [StateT.run_bind, hrest]
    rfl
  · rw [charged.blocks_blockTable, List.forall_mem_cons, List.forall_mem_map]
    exact ⟨hextends'.charges hcharged, hcharged'⟩
  · apply haccounts'.move
    rw [slots_push, charged.blocks_blockTable]
    let tables : List Block := values.map fun entry ↦ .values entry.2
    calc _ = (owners.flatMap Owner.blocks ++ slots memory.tables) ++
          (.topology topology :: tables) := (List.append_assoc _ _ _).symm
      _ |>.Perm ((.topology topology :: tables) ++
          (owners.flatMap Owner.blocks ++ slots memory.tables)) := List.perm_append_comm
      _ = (.topology topology :: (tables ++ owners.flatMap Owner.blocks)) ++
          slots memory.tables := (List.append_assoc _ _ _).symm
      _ |>.Perm ((tables ++ .topology topology :: owners.flatMap Owner.blocks) ++
          slots memory.tables) := List.perm_middle.symm.append_right _
  · exact h.shares.openTable _ _

/-- The blocks of a view are taken from the block table. -/
theorem blocks_opened_subset {store : Store} {key : Option String} {topology : Topology}
    {values : Option ValueTable} {position : Nat}
    (h : store.blocks memory key = .ok (topology, values, position)) :
    (store.opened topology values position).owner.blocks ⊆ slots memory.tables := by
  intro block hblock
  obtain ⟨table, htable, htopology, hkey⟩ := Store.blocks_eq_ok_iff.mp h
  rw [mem_slots_iff]
  refine ⟨store.blockTable, table, htable, BlockTable.mem_blocks_iff.mpr ?_⟩
  rcases List.mem_append.mp hblock with hblock | hblock
  · exact .inl ⟨topology, htopology, (List.mem_singleton.mp hblock).symm⟩
  · cases key with
    | none =>
      rw [hkey.1] at hblock
      exact absurd hblock List.not_mem_nil
    | some key =>
      obtain ⟨_, stored, rfl, hstored⟩ := hkey
      exact .inr ⟨position, stored, hstored, (List.mem_singleton.mp hblock).symm⟩

/-- Opening a view either fails and changes nothing, or makes the view another holder of blocks. -/
theorem Serves.openView (h : memory.Serves owners) {store : Store} (hstore : store.owner ∈ owners)
    (key : Option String) :
    (∃ error, (store.view key).run.run memory = (.error error, memory) ∧
        error.isOverdraft = false) ∨
      ∃ topology values position ledger,
        store.blocks memory key = .ok (topology, values, position) ∧
        (store.view key).run.run memory = (.ok (.packed (store.opened topology values position)),
          ⟨ledger, memory.tables.modify store.blockTable
            fun table ↦ { table with holders := table.holders + 1 }⟩) ∧
        Serves ⟨ledger, memory.tables.modify store.blockTable
            fun table ↦ { table with holders := table.holders + 1 }⟩
          ((store.opened topology values position).owner :: owners) ∧
        ledger.Extends memory.ledger := by
  cases hblocks : store.blocks memory key with
  | error error =>
    exact .inl ⟨error, Store.run_view_of_error hblocks,
      store.avoids_blocks memory key error hblocks⟩
  | ok found =>
    obtain ⟨topology, values, position⟩ := found
    rcases store.opened_or_rejected topology values position with hopened | ⟨error, herror, hsafe⟩
    · have hmem : store.blockTable ∈ owners.flatMap Owner.tables :=
        List.mem_flatMap.mpr ⟨store.owner, hstore, List.mem_singleton_self _⟩
      obtain ⟨ledger, hrun, hserves, hextends⟩ := h.hold hmem fun block hblock ↦
        List.mem_append_right _ (blocks_opened_subset hblocks hblock)
      refine .inr ⟨topology, values, position, ledger, rfl, ?_, hserves, hextends⟩
      simp only [Store.view, run_bind, run_get, run_ofExcept, hblocks, hopened, run_lift, hrun,
        run_pure]
      rfl
    · refine .inl ⟨error, ?_, hsafe⟩
      simp only [Store.view, run_bind, run_get, run_ofExcept, hblocks, herror]

end Memory

end PackedGraph
