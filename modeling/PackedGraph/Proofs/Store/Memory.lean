import Mathlib
import PackedGraph.Proofs.Memory.Ledger
import PackedGraph.Proofs.Running
import PackedGraph.Store.Memory

/-!
# Accounts of a memory

Blocks are held by owners, which are the stores, views and triangle finders, and by the block
tables that stores and views share. A memory serves some owners when its ledger accounts for all
these blocks, and every block table is emptied along with its last owner.
-/

namespace PackedGraph

/-- The blocks that have not been released from a block table. -/
def BlockTable.blocks (table : BlockTable) : List Block :=
  (table.topology.map Block.topology).toList ++
    table.values.toList.filterMap fun values ↦ values.map Block.values

namespace BlockTable

def releaseTopology (table : BlockTable) : BlockTable := { table with topology := none }

def releaseValues (table : BlockTable) (position : Nat) : BlockTable :=
  { table with values := table.values.setIfInBounds position none }

/-- Without its last holder, a block table is empty. -/
def dropHolder (table : BlockTable) : BlockTable :=
  match table.holders with
  | 0 => table
  | 1 => ⟨none, .replicate table.values.size none, 0⟩
  | holders + 2 => { table with holders := holders + 1 }

theorem blocks_eq_topology_cons {table : BlockTable} {topology : Topology}
    (h : table.topology = some topology) :
    table.blocks = .topology topology :: table.releaseTopology.blocks := by
  unfold blocks releaseTopology
  rw [h]
  rfl

theorem blocks_releaseTopology_of_none {table : BlockTable} (h : table.topology = none) :
    table.releaseTopology = table := by
  obtain ⟨topology, values, holders⟩ := table
  obtain rfl := h
  rfl

theorem perm_blocks_of_values {table : BlockTable} {position : Nat} {values : ValueTable}
    (h : table.values[position]? = some (some values)) :
    (.values values :: (table.releaseValues position).blocks).Perm table.blocks := by
  unfold blocks releaseValues
  rw [← Array.getElem?_toList] at h
  obtain ⟨hlt, hget⟩ := List.getElem?_eq_some_iff.mp h
  have hvalues : table.values.toList = table.values.toList.take position ++
      some values :: table.values.toList.drop (position + 1) := by
    rw [← hget, List.getElem_cons_drop, List.take_append_drop]
  rw [Array.toList_setIfInBounds, List.set_eq_take_append_cons_drop, if_pos hlt]
  conv_rhs => rw [hvalues]
  simp only [List.filterMap_append, List.filterMap_cons, Option.map_none, Option.map_some]
  rw [← List.append_assoc, ← List.append_assoc]
  exact List.perm_middle.symm

theorem releaseValues_of_none {table : BlockTable} {position : Nat}
    (h : table.values[position]?.join = none) : table.releaseValues position = table := by
  obtain ⟨topology, values, holders⟩ := table
  have hvalues : values.setIfInBounds position none = values := by
    apply Array.ext_getElem?
    intro i
    rw [Array.getElem?_setIfInBounds]
    split_ifs with hi hlt
    · subst hi
      rw [Array.getElem?_eq_getElem hlt, Option.join_some] at h
      rw [Array.getElem?_eq_getElem hlt, h]
    · subst hi
      exact (Array.getElem?_eq_none (not_lt.mp hlt)).symm
    · rfl
  rw [releaseValues, hvalues]

theorem blocks_releaseTopology_subperm (table : BlockTable) :
    table.releaseTopology.blocks.Subperm table.blocks := by
  cases htopology : table.topology with
  | none => rw [blocks_releaseTopology_of_none htopology]
  | some topology =>
    rw [blocks_eq_topology_cons htopology]
    exact (List.sublist_cons_self _ _).subperm

theorem blocks_releaseValues_subperm (position : Nat) (table : BlockTable) :
    (table.releaseValues position).blocks.Subperm table.blocks := by
  cases hvalues : table.values[position]?.join with
  | none => rw [releaseValues_of_none hvalues]
  | some values =>
    have hperm := perm_blocks_of_values (Option.join_eq_some_iff.mp hvalues)
    exact (List.sublist_cons_self _ _).subperm.trans hperm.subperm

theorem getElem?_values_foldl (positions : List Nat) (table : BlockTable) (i : Nat) :
    (positions.foldl releaseValues table).values[i]? =
      if i ∈ positions then table.values[i]?.map fun _ ↦ none else table.values[i]? := by
  induction positions generalizing table with
  | nil => rfl
  | cons position positions ih =>
    rw [List.foldl_cons, ih, releaseValues, Array.getElem?_setIfInBounds]
    by_cases hi : position = i
    · subst hi
      by_cases hlt : position < table.values.size
      · simp [hlt]
      · simp [hlt]
    · simp [hi, Ne.symm hi]

/-- Releasing everything leaves an empty block table. -/
theorem foldl_releaseValues_range (table : BlockTable) :
    (List.range table.values.size).foldl releaseValues table.releaseTopology =
      { table with topology := none, values := .replicate table.values.size none } := by
  have hframe (positions : List Nat) (table : BlockTable) :
      positions.foldl releaseValues table =
        { table with values := (positions.foldl releaseValues table).values } := by
    induction positions generalizing table with
    | nil => rfl
    | cons position positions ih => exact ih (table.releaseValues position)
  rw [hframe, releaseTopology]
  congr 1
  apply Array.ext_getElem?
  intro i
  rw [getElem?_values_foldl, Array.getElem?_replicate]
  by_cases hi : i < table.values.size
  · simp [hi]
  · simp [hi]

theorem blocks_replicate_none (count holders : Nat) :
    BlockTable.blocks ⟨none, .replicate count none, holders⟩ = [] := by
  unfold blocks
  simp

theorem mem_blocks_iff {table : BlockTable} {block : Block} :
    block ∈ table.blocks ↔ (∃ topology, table.topology = some topology ∧
        .topology topology = block) ∨
      ∃ (position : Nat) (values : ValueTable),
        table.values[position]? = some (some values) ∧ .values values = block := by
  rw [blocks, List.mem_append, Option.mem_toList, Option.map_eq_some_iff,
    List.mem_filterMap]
  refine or_congr_right ⟨?_, ?_⟩
  · rintro ⟨slot, hslot, hblock⟩
    obtain ⟨values, rfl, rfl⟩ := Option.map_eq_some_iff.mp hblock
    obtain ⟨position, hposition⟩ := Array.mem_iff_getElem?.mp (Array.mem_toList_iff.mp hslot)
    exact ⟨position, values, hposition, rfl⟩
  · rintro ⟨position, values, hposition, rfl⟩
    exact ⟨some values, Array.mem_toList_iff.mpr (Array.mem_of_getElem? hposition), rfl⟩

end BlockTable

theorem modify_congr {α : Type} {xs : Array α} {i : Nat} {f g : α → α}
    (h : ∀ a, xs[i]? = some a → f a = g a) : xs.modify i f = xs.modify i g := by
  apply Array.ext_getElem?
  intro j
  rw [Array.getElem?_modify, Array.getElem?_modify]
  split_ifs with hj
  · subst hj
    cases ha : xs[i]? with
    | none => rfl
    | some a => rw [Option.map_some, Option.map_some, h a ha]
  · rfl

theorem modify_eq_self {α : Type} {xs : Array α} {i : Nat} {f : α → α}
    (h : ∀ a, xs[i]? = some a → f a = a) : xs.modify i f = xs := by
  apply Array.ext_getElem?
  intro j
  rw [modify_congr h, Array.getElem?_modify]
  split_ifs
  · exact Option.map_id'
  · rfl

theorem modify_modify {α : Type} (xs : Array α) (i : Nat) (f g : α → α) :
    (xs.modify i f).modify i g = xs.modify i (g ∘ f) := by
  apply Array.ext_getElem?
  intro j
  simp only [Array.getElem?_modify]
  split_ifs
  · rw [Option.map_map]
  · rfl

namespace Memory

/-- The blocks that have not been released from their block tables. -/
def slots (tables : Array BlockTable) : List Block := tables.toList.flatMap BlockTable.blocks

theorem mem_slots_iff {tables : Array BlockTable} {block : Block} :
    block ∈ slots tables ↔
      ∃ (number : Nat) (table : BlockTable), tables[number]? = some table ∧
        block ∈ table.blocks := by
  rw [slots, List.mem_flatMap]
  constructor
  · rintro ⟨table, htable, hblock⟩
    obtain ⟨number, hnumber⟩ := Array.mem_iff_getElem?.mp (Array.mem_toList_iff.mp htable)
    exact ⟨number, table, hnumber, hblock⟩
  · rintro ⟨number, table, hnumber, hblock⟩
    exact ⟨table, Array.mem_toList_iff.mpr (Array.mem_of_getElem? hnumber), hblock⟩

/-- Taking blocks out of a block table. -/
theorem perm_slots_modify {tables : Array BlockTable} {number : Nat} {table : BlockTable}
    (h : tables[number]? = some table) {f : BlockTable → BlockTable} {taken : List Block}
    (hperm : (taken ++ (f table).blocks).Perm table.blocks) :
    (taken ++ slots (tables.modify number f)).Perm (slots tables) := by
  unfold slots
  rw [modify_eq_setIfInBounds h, Array.toList_setIfInBounds]
  rw [← Array.getElem?_toList] at h
  obtain ⟨hlt, hget⟩ := List.getElem?_eq_some_iff.mp h
  have htables : tables.toList = tables.toList.take number ++
      table :: tables.toList.drop (number + 1) := by
    rw [← hget, List.getElem_cons_drop, List.take_append_drop]
  rw [List.set_eq_take_append_cons_drop, if_pos hlt]
  conv_rhs => rw [htables]
  simp only [List.flatMap_append, List.flatMap_cons]
  calc taken ++ (_ ++ ((f table).blocks ++ _))
      _ = (taken ++ _) ++ ((f table).blocks ++ _) := (List.append_assoc _ _ _).symm
      _ |>.Perm (_ ++ taken ++ ((f table).blocks ++ _)) := List.perm_append_comm.append_right _
      _ = _ ++ ((taken ++ (f table).blocks) ++ _) := by simp only [List.append_assoc]
      _ |>.Perm (_ ++ (table.blocks ++ _)) := (hperm.append_right _).append_left _

/-- The ledger accounts for some blocks, together with those in the block tables. -/
def Accounts (memory : Memory) (blocks : List Block) : Prop :=
  memory.ledger.Accounts (blocks ++ slots memory.tables)

namespace Accounts

variable {memory : Memory} {blocks now : List Block} {block : Block} {account : Account}

theorem perm (h : memory.Accounts blocks) (hperm : blocks.Perm now) : memory.Accounts now :=
  Ledger.Accounts.perm h (hperm.append_right _)

/-- Blocks may be moved out of the block tables. -/
theorem move (h : memory.Accounts blocks) {tables : Array BlockTable}
    (hperm : (now ++ slots tables).Perm (blocks ++ slots memory.tables)) :
    Accounts ⟨memory.ledger, tables⟩ now :=
  Ledger.Accounts.perm h hperm.symm

/-- A block may be moved out of its block table. -/
theorem take (h : memory.Accounts blocks) {number : Nat} {table : BlockTable}
    (htable : memory.tables[number]? = some table) {f : BlockTable → BlockTable}
    (hperm : (block :: (f table).blocks).Perm table.blocks) :
    Accounts ⟨memory.ledger, memory.tables.modify number f⟩ (block :: blocks) := by
  apply h.move
  have hslots : ([block] ++ slots (memory.tables.modify number f)).Perm (slots memory.tables) :=
    perm_slots_modify htable hperm
  exact List.perm_middle.symm.trans (hslots.append_left blocks)

/-- The holders of a block table do not matter. -/
theorem modify (h : memory.Accounts blocks) (number : Nat) {f : BlockTable → BlockTable}
    (hblocks : ∀ table, memory.tables[number]? = some table → (f table).blocks = table.blocks) :
    Accounts ⟨memory.ledger, memory.tables.modify number f⟩ blocks := by
  cases htable : memory.tables[number]? with
  | none =>
    rw [modify_eq_self fun table hsome ↦ absurd (htable.symm.trans hsome) nofun]
    exact h
  | some table =>
    have hslots : ([] ++ slots (memory.tables.modify number f)).Perm (slots memory.tables) :=
      perm_slots_modify htable (.of_eq (hblocks table htable))
    exact h.move (hslots.append_left blocks)

theorem charge (h : memory.Accounts blocks)
    (haccount : ∀ counter, account = some counter → counter < memory.ledger.counters.size)
    (hfits : (memory.ledger.balance account).toNat + block.sizeInBytes < 2 ^ 64)
    (hcharge : block.charge = some memory.ledger.charges.size) :
    ∃ ledger, (Memory.charge account block.sizeInBytes).run memory =
        (memory.ledger.charges.size, ⟨ledger, memory.tables⟩) ∧
      Accounts ⟨ledger, memory.tables⟩ (block :: blocks) ∧ ledger.Extends memory.ledger ∧
      ledger.Charges account block ∧
      (ledger.balance account).toNat ≤
        (memory.ledger.balance account).toNat + block.sizeInBytes := by
  obtain ⟨haccounts, hextends⟩ := Ledger.Accounts.charge h haccount hfits hcharge
  have hcharges := memory.ledger.charges_add account (UInt64.ofNat block.sizeInBytes)
  have hbalance := memory.ledger.balance_charge_le account (UInt64.ofNat block.sizeInBytes)
  have hnumber : (memory.ledger.charge account (UInt64.ofNat block.sizeInBytes)).1.charges[
      memory.ledger.charges.size]? = some ⟨account, UInt64.ofNat block.sizeInBytes, 1⟩ := by
    change (Ledger.charges _ |>.push _)[_]? = _
    rw [hcharges, Array.getElem?_push_size]
  refine ⟨_, congrArg (fun charges : Array Charge ↦ (charges.size, _)) hcharges, haccounts,
    hextends, ⟨_, _, hcharge, hnumber, rfl⟩, hbalance.trans ?_⟩
  exact Nat.add_le_add_left (UInt64.toNat_ofNat'.trans_le (Nat.mod_le _ _)) _

theorem hold (h : memory.Accounts blocks) (hblock : block ∈ blocks ++ slots memory.tables) :
    ∃ ledger, (Memory.hold block.charge).run memory = ((), ⟨ledger, memory.tables⟩) ∧
      Accounts ⟨ledger, memory.tables⟩ (block :: blocks) ∧ ledger.Extends memory.ledger :=
  have hheld := Ledger.Accounts.hold h hblock
  ⟨_, rfl, hheld.1, hheld.2⟩

theorem drop (h : memory.Accounts (block :: blocks)) :
    ∃ ledger, (Memory.drop block.charge).run.run memory = (.ok (), ⟨ledger, memory.tables⟩) ∧
      Accounts ⟨ledger, memory.tables⟩ blocks ∧ ledger.Extends memory.ledger := by
  obtain ⟨ledger, hdrop, haccounts, hextends⟩ := Ledger.Accounts.drop h
  refine ⟨ledger, ?_, haccounts, hextends⟩
  cases hcharge : block.charge with
  | none =>
    rw [hcharge, Option.elim_none, Prod.mk.injEq] at hdrop
    rw [← hdrop.1]
    rfl
  | some number =>
    rw [hcharge, Option.elim_some] at hdrop
    exact congrArg (fun result : Ledger × Except Fault Unit ↦
      (result.2, Memory.mk result.1 memory.tables)) hdrop

/-- Releasing the topology of a block table empties its place, and drops it if it was there. -/
theorem releaseTopology (h : memory.Accounts blocks) (number : Nat) :
    ∃ ledger, (Memory.releaseTopology number).run.run memory =
        (.ok (), ⟨ledger, memory.tables.modify number BlockTable.releaseTopology⟩) ∧
      Accounts ⟨ledger, memory.tables.modify number BlockTable.releaseTopology⟩ blocks ∧
      ledger.Extends memory.ledger := by
  simp only [Memory.releaseTopology, run_bind, run_get, run_modify]
  cases htaken : memory.tables[number]?.bind BlockTable.topology with
  | none =>
    have htables : memory.tables.modify number BlockTable.releaseTopology = memory.tables := by
      apply modify_eq_self
      intro table htable
      rw [htable, Option.bind_some] at htaken
      exact BlockTable.blocks_releaseTopology_of_none htaken
    refine ⟨memory.ledger, rfl, ?_, .refl _⟩
    rw [htables]
    exact h
  | some topology =>
    obtain ⟨table, htable, htopology⟩ := Option.bind_eq_some_iff.mp htaken
    have hmoved : Accounts ⟨memory.ledger, memory.tables.modify number BlockTable.releaseTopology⟩
        (.topology topology :: blocks) :=
      h.take htable (.of_eq (BlockTable.blocks_eq_topology_cons htopology).symm)
    exact hmoved.drop

theorem releaseValues (h : memory.Accounts blocks) (number position : Nat) :
    ∃ ledger, (Memory.releaseValues number position).run.run memory =
        (.ok (), ⟨ledger, memory.tables.modify number (·.releaseValues position)⟩) ∧
      Accounts ⟨ledger, memory.tables.modify number (·.releaseValues position)⟩ blocks ∧
      ledger.Extends memory.ledger := by
  simp only [Memory.releaseValues, run_bind, run_get, run_modify]
  cases htaken : (memory.tables[number]?.bind (·.values[position]?)).join with
  | none =>
    have htables : memory.tables.modify number (·.releaseValues position) = memory.tables := by
      apply modify_eq_self
      intro table htable
      rw [htable, Option.bind_some] at htaken
      exact BlockTable.releaseValues_of_none htaken
    refine ⟨memory.ledger, rfl, ?_, .refl _⟩
    rw [htables]
    exact h
  | some values =>
    obtain ⟨table, htable, hvalues⟩ :=
      Option.bind_eq_some_iff.mp (Option.join_eq_some_iff.mp htaken)
    have hmoved : Accounts ⟨memory.ledger, memory.tables.modify number (·.releaseValues position)⟩
        (.values values :: blocks) :=
      h.take htable (BlockTable.perm_blocks_of_values hvalues)
    exact hmoved.drop

theorem forM_releaseValues (h : memory.Accounts blocks) (number : Nat) (positions : List Nat) :
    ∃ ledger, (positions.forM (Memory.releaseValues number)).run.run memory =
        (.ok (), ⟨ledger, memory.tables.modify number (positions.foldl BlockTable.releaseValues)⟩) ∧
      Accounts ⟨ledger, memory.tables.modify number
        (positions.foldl BlockTable.releaseValues)⟩ blocks ∧
      ledger.Extends memory.ledger := by
  induction positions generalizing memory with
  | nil =>
    have htables : memory.tables.modify number ([].foldl BlockTable.releaseValues) =
        memory.tables := modify_eq_self fun _ _ ↦ rfl
    rw [htables]
    exact ⟨memory.ledger, rfl, h, .refl _⟩
  | cons position positions ih =>
    obtain ⟨ledger, hrun, haccounts, hextends⟩ := h.releaseValues number position
    obtain ⟨later, hrest, hlater, hextends'⟩ := ih haccounts
    rw [modify_modify] at hrest hlater
    refine ⟨later, ?_, hlater, hextends'.trans hextends⟩
    rw [List.forM, run_bind, hrun]
    exact hrest

/-- Taking a holder off a block table drops its blocks if it was the last one. -/
theorem dropTable (h : memory.Accounts blocks) (number : Nat) :
    ∃ ledger, (Memory.dropTable number).run.run memory =
        (.ok (), ⟨ledger, memory.tables.modify number BlockTable.dropHolder⟩) ∧
      Accounts ⟨ledger, memory.tables.modify number BlockTable.dropHolder⟩ blocks ∧
      ledger.Extends memory.ledger := by
  simp only [Memory.dropTable, run_bind, run_get]
  cases htable : memory.tables[number]? with
  | none =>
    rw [modify_eq_self fun table hsome ↦ absurd (htable.symm.trans hsome) nofun]
    exact ⟨memory.ledger, rfl, h, .refl _⟩
  | some table =>
    obtain ⟨topology, values, holders⟩ := table
    have hdrop (f : BlockTable → BlockTable)
        (hf : f ⟨topology, values, holders⟩ = BlockTable.dropHolder ⟨topology, values, holders⟩) :
        memory.tables.modify number BlockTable.dropHolder = memory.tables.modify number f := by
      apply modify_congr
      intro table hsome
      obtain rfl := Option.some.inj (htable.symm.trans hsome)
      exact hf.symm
    have hmodified (holders : Nat) := h.modify number
      (f := fun table ↦ { table with holders }) fun _ _ ↦ rfl
    match holders with
    | 0 =>
      rw [hdrop id rfl, modify_eq_self (f := id) fun _ _ ↦ rfl]
      exact ⟨memory.ledger, rfl, h, .refl _⟩
    | holders + 2 =>
      rw [hdrop (fun table ↦ { table with holders := holders + 1 }) rfl]
      exact ⟨memory.ledger, rfl, hmodified (holders + 1), .refl _⟩
    | 1 =>
      obtain ⟨ledger, hrun, hreleased, hextends⟩ := (hmodified 0).releaseTopology number
      obtain ⟨later, hrest, hlater, hextends'⟩ :=
        hreleased.forM_releaseValues number (List.range values.size)
      rw [modify_modify, modify_modify] at hrest hlater
      rw [hdrop (fun table ↦ (List.range values.size).foldl BlockTable.releaseValues
        (BlockTable.releaseTopology { table with holders := 0 }))
        (BlockTable.foldl_releaseValues_range ⟨topology, values, 0⟩)]
      refine ⟨later, ?_, hlater, hextends'.trans hextends⟩
      simp only [run_modify, if_true, run_bind, hrun, modify_modify]
      exact hrest

end Accounts

/-! ## Block tables and their users -/

/-- Every block table counts its users, and a table without users is empty. -/
structure Shares (tables : Array BlockTable) (users : List Nat) : Prop where
  holders_eq : ∀ (number : Nat) (table : BlockTable), tables[number]? = some table →
    table.holders = users.count number
  blocks_eq_nil : ∀ (number : Nat) (table : BlockTable), tables[number]? = some table →
    table.holders = 0 → table.blocks = []
  user_lt : ∀ number ∈ users, number < tables.size

namespace Shares

variable {tables : Array BlockTable} {users others : List Nat} {number : Nat}

theorem perm (h : Shares tables users) (hperm : users.Perm others) : Shares tables others where
  holders_eq := fun number table htable ↦
    (h.holders_eq number table htable).trans (hperm.count_eq number)
  blocks_eq_nil := h.blocks_eq_nil
  user_lt := fun number hnumber ↦ h.user_lt number (hperm.mem_iff.mpr hnumber)

/-- Changing a block table along with the number of its users. -/
theorem modify (h : Shares tables users) {f : BlockTable → BlockTable}
    (hcount : ∀ i ≠ number, users.count i = others.count i)
    (hholders : ∀ table, tables[number]? = some table → (f table).holders = others.count number)
    (hblocks : ∀ table, tables[number]? = some table → (f table).holders = 0 →
      (f table).blocks = [])
    (hlt : ∀ i ∈ others, i < tables.size) : Shares (tables.modify number f) others where
  holders_eq := by
    intro i table htable
    rw [Array.getElem?_modify] at htable
    split_ifs at htable with hi
    · subst hi
      obtain ⟨before, hbefore, rfl⟩ := Option.map_eq_some_iff.mp htable
      exact hholders before hbefore
    · rw [h.holders_eq i table htable, hcount i (Ne.symm hi)]
  blocks_eq_nil := by
    intro i table htable
    rw [Array.getElem?_modify] at htable
    split_ifs at htable with hi
    · subst hi
      obtain ⟨before, hbefore, rfl⟩ := Option.map_eq_some_iff.mp htable
      exact hblocks before hbefore
    · exact h.blocks_eq_nil i table htable
  user_lt := by
    rw [Array.size_modify]
    exact hlt

theorem openTable (h : Shares tables users) (topology : Option Topology)
    (values : Array (Option ValueTable)) :
    Shares (tables.push ⟨topology, values, 1⟩) (tables.size :: users) where
  holders_eq := by
    intro i table htable
    rw [Array.getElem?_push] at htable
    split_ifs at htable with hi
    · obtain rfl := Option.some.inj htable
      rw [hi, List.count_cons_self, List.count_eq_zero_of_not_mem]
      intro hmem
      exact absurd (h.user_lt _ hmem) (lt_irrefl _)
    · rw [h.holders_eq i table htable, List.count_cons_of_ne (Ne.symm hi)]
  blocks_eq_nil := by
    intro i table htable hholders
    rw [Array.getElem?_push] at htable
    split_ifs at htable with hi
    · obtain rfl := Option.some.inj htable
      exact absurd hholders one_ne_zero
    · exact h.blocks_eq_nil i table htable hholders
  user_lt := by
    rw [Array.size_push, List.forall_mem_cons]
    exact ⟨Nat.lt_succ_self _, fun i hi ↦ (h.user_lt i hi).trans (Nat.lt_succ_self _)⟩

theorem hold (h : Shares tables users) (hnumber : number ∈ users) :
    Shares (tables.modify number fun table ↦ { table with holders := table.holders + 1 })
      (number :: users) := by
  apply h.modify
  · exact fun i hi ↦ (List.count_cons_of_ne (Ne.symm hi)).symm
  · intro table htable
    rw [h.holders_eq number table htable, List.count_cons_self]
  · exact fun table _ hholders ↦ absurd hholders (Nat.succ_ne_zero _)
  · exact List.forall_mem_cons.mpr ⟨h.user_lt number hnumber, h.user_lt⟩

theorem drop (h : Shares tables (number :: users)) :
    Shares (tables.modify number BlockTable.dropHolder) users := by
  have hholders (table : BlockTable) (htable : tables[number]? = some table) :
      table.holders = users.count number + 1 := by
    rw [h.holders_eq number table htable, List.count_cons_self]
  apply h.modify
  · exact fun i hi ↦ List.count_cons_of_ne (Ne.symm hi)
  · intro table htable
    have heq := hholders table htable
    unfold BlockTable.dropHolder
    split
    · omega
    · change 0 = _
      omega
    · change _ + 1 = _
      omega
  · intro table htable
    have heq := hholders table htable
    unfold BlockTable.dropHolder
    split
    · omega
    · exact fun _ ↦ BlockTable.blocks_replicate_none _ _
    · exact fun hzero ↦ absurd hzero (Nat.succ_ne_zero _)
  · exact fun i hi ↦ h.user_lt i (List.mem_cons_of_mem _ hi)

/-- A block table may lose blocks. -/
theorem release (h : Shares tables users) (number : Nat) {f : BlockTable → BlockTable}
    (hholders : ∀ table, (f table).holders = table.holders)
    (hblocks : ∀ table, (f table).blocks.Subperm table.blocks) :
    Shares (tables.modify number f) users := by
  apply h.modify
  · exact fun _ _ ↦ rfl
  · intro table htable
    rw [hholders, h.holders_eq number table htable]
  · intro table htable hzero
    rw [hholders] at hzero
    have hle := (hblocks table).length_le
    rw [h.blocks_eq_nil number table htable hzero] at hle
    exact List.eq_nil_of_length_eq_zero (Nat.le_zero.mp hle)
  · exact h.user_lt

end Shares

end Memory

end PackedGraph
