import PackedGraph.Proofs.Session.Calls
import PackedGraph.Proofs.Store.Holding

/-!
# Balanced sessions

A session is balanced when its memory serves exactly its stores, views and triangle finders. Every
call has one lemma: it says what the session is after the call, that it is balanced again, and that
block tables in use keep their blocks unless the call releases them. Between the parts of a call
some owners may be in hand that have no name yet, or no longer.
-/

namespace PackedGraph

/-! ## Later memories -/

/-- The blocks of a block table in their places. -/
def BlockTable.contents (table : BlockTable) : Option Topology × Array (Option ValueTable) :=
  (table.topology, table.values)

theorem BlockTable.blocks_congr {table other : BlockTable} (h : table.contents = other.contents) :
    table.blocks = other.blocks := by
  obtain ⟨htopology, hvalues⟩ := Prod.mk.inj h
  rw [blocks, blocks, htopology, hvalues]

theorem BlockTable.blocks_dropHolder_subset (table : BlockTable) :
    table.dropHolder.blocks ⊆ table.blocks := by
  unfold dropHolder
  split
  · exact List.Subset.refl _
  · rw [blocks_replicate_none]
    exact List.nil_subset _
  · exact List.Subset.refl _

namespace Memory

/-- The blocks of the block table of a number in their places. -/
def contents (memory : Memory) (number : Nat) :
    Option (Option Topology × Array (Option ValueTable)) :=
  memory.tables[number]?.map BlockTable.contents

/-- Since an earlier memory, no charge was forgotten, no block table was opened, no block was put
into one, and the block tables that still have owners have kept their blocks. -/
structure Continues (after before : Memory) (owners : List Owner) : Prop where
  ledger : after.ledger.Extends before.ledger
  slots_subset : slots after.tables ⊆ slots before.tables
  contents_eq : ∀ number ∈ owners.flatMap Owner.tables,
    after.contents number = before.contents number
  size_tables : after.tables.size = before.tables.size

namespace Continues

variable {first second third : Memory} {owners others : List Owner}

theorem refl (memory : Memory) (owners : List Owner) : memory.Continues memory owners :=
  ⟨.refl _, List.Subset.refl _, fun _ _ ↦ rfl, rfl⟩

theorem trans (h : second.Continues first owners) (h' : third.Continues second others)
    (hsub : others ⊆ owners) : third.Continues first others where
  ledger := h'.ledger.trans h.ledger
  slots_subset := List.Subset.trans h'.slots_subset h.slots_subset
  contents_eq := by
    intro number hnumber
    obtain ⟨owner, howner, htable⟩ := List.mem_flatMap.mp hnumber
    have hmem := List.mem_flatMap.mpr ⟨owner, hsub howner, htable⟩
    exact (h'.contents_eq number hnumber).trans (h.contents_eq number hmem)
  size_tables := h'.size_tables.trans h.size_tables

/-- A change of the ledger alone. -/
theorem of_ledger {memory : Memory} {ledger : Ledger} (h : ledger.Extends memory.ledger)
    (owners : List Owner) : Continues ⟨ledger, memory.tables⟩ memory owners :=
  ⟨h, List.Subset.refl _, fun _ _ ↦ rfl, rfl⟩

end Continues

theorem contents_modify {memory : Memory} {ledger : Ledger} {number other : Nat}
    {f : BlockTable → BlockTable}
    (h : ∀ table, other = number → memory.tables[number]? = some table →
      (f table).contents = table.contents) :
    contents ⟨ledger, memory.tables.modify number f⟩ other = memory.contents other := by
  unfold contents
  rw [Array.getElem?_modify]
  split_ifs with hnumber
  · subst hnumber
    cases htable : memory.tables[number]? with
    | none => rfl
    | some table => exact congrArg some (h table rfl htable)
  · rfl

theorem slots_modify_subset {tables : Array BlockTable} (number : Nat)
    {f : BlockTable → BlockTable} (h : ∀ table, (f table).blocks ⊆ table.blocks) :
    slots (tables.modify number f) ⊆ slots tables := by
  intro block hblock
  rw [mem_slots_iff] at hblock ⊢
  obtain ⟨other, table, htable, hblock⟩ := hblock
  rw [Array.getElem?_modify] at htable
  split_ifs at htable
  · obtain ⟨earlier, hearlier, rfl⟩ := Option.map_eq_some_iff.mp htable
    exact ⟨other, earlier, hearlier, h earlier hblock⟩
  · exact ⟨other, table, htable, hblock⟩

theorem slots_tablesWithoutTopology_subset (view : PackedView) (tables : Array BlockTable) :
    slots (view.tablesWithoutTopology tables) ⊆ slots tables := by
  unfold PackedView.tablesWithoutTopology
  split
  · exact slots_modify_subset _ fun table ↦ table.blocks_releaseTopology_subperm.subset
  · exact List.Subset.refl _

theorem slots_tablesWithoutValues_subset (view : PackedView) (tables : Array BlockTable) :
    slots (view.tablesWithoutValues tables) ⊆ slots tables := by
  unfold PackedView.tablesWithoutValues
  split
  · exact slots_modify_subset _ fun table ↦ (table.blocks_releaseValues_subperm _).subset
  · exact List.Subset.refl _

/-- Another holder of a block table. -/
theorem continues_hold {memory : Memory} {ledger : Ledger} (h : ledger.Extends memory.ledger)
    (number : Nat) (owners : List Owner) :
    Continues ⟨ledger, memory.tables.modify number
      fun table ↦ { table with holders := table.holders + 1 }⟩ memory owners :=
  ⟨h, slots_modify_subset _ fun _ ↦ List.Subset.refl _, fun _ _ ↦ contents_modify fun _ _ _ ↦ rfl,
    Array.size_modify⟩

/-- A block table loses a holder that is not the last one, or has no owners any more. -/
theorem Serves.continues_drop {memory : Memory} {owner : Owner} {owners : List Owner}
    (h : memory.Serves (owner :: owners)) {number : Nat} (howner : owner.tables = [number])
    {ledger : Ledger} (hledger : ledger.Extends memory.ledger) :
    Continues ⟨ledger, memory.tables.modify number BlockTable.dropHolder⟩ memory owners := by
  refine ⟨hledger, slots_modify_subset _ BlockTable.blocks_dropHolder_subset,
    fun other hother ↦ contents_modify ?_, Array.size_modify⟩
  rintro table rfl htable
  have hcount := h.shares.holders_eq other table htable
  rw [List.flatMap_cons, howner, List.singleton_append, List.count_cons_self] at hcount
  have hpos := List.count_pos_iff.mpr hother
  unfold BlockTable.dropHolder
  split
  · rfl
  · omega
  · rfl

end Memory

namespace PackedView

theorem blocks_withoutTopology_subset (view : PackedView) :
    view.withoutTopology.owner.blocks ⊆ view.owner.blocks := by
  unfold withoutTopology
  split
  · exact List.subset_append_right _ _
  · exact List.Subset.refl _

theorem blocks_withoutValues_subset (view : PackedView) :
    view.withoutValues.owner.blocks ⊆ view.owner.blocks := by
  unfold withoutValues
  split
  · exact List.append_subset.mpr ⟨List.subset_append_left _ _, List.nil_subset _⟩
  · exact List.Subset.refl _

end PackedView

/-! ## Dropping -/

/-- Dropping a value gives up all that it owns. -/
def Drops {α : Type} (owner : α → Owner) (drop : α → Memory.Update Unit) : Prop :=
  ∀ (memory : Memory) (owners : List Owner) (a : α), memory.Serves (owner a :: owners) →
    ∃ after, (drop a).run.run memory = (.ok (), after) ∧ after.Serves owners ∧
      after.Continues memory owners

theorem Store.drops : Drops owner drop := by
  intro memory owners store h
  obtain ⟨ledger, hrun, hserves, hextends⟩ := h.drop_store
  exact ⟨_, hrun, hserves, h.continues_drop rfl hextends⟩

theorem View.drops : Drops owner drop := by
  intro memory owners view h
  have hbase : memory.Serves (view.base.owner :: owners) := h
  obtain ⟨ledger, hrun, hserves, hextends⟩ := hbase.drop
  exact ⟨_, hrun, hserves, h.continues_drop rfl hextends⟩

theorem TriangleFinder.drops : Drops owner drop := by
  intro memory owners finder h
  obtain ⟨ledger, hrun, hserves, hextends⟩ := h.drop_finder
  exact ⟨_, hrun, hserves, .of_ledger hextends owners⟩

/-- Dropping a value in a session, if there is one. -/
theorem Drops.run_forM {α : Type} {owner : α → Owner} {drop : α → Memory.Update Unit}
    (h : Drops owner drop) (session : Session) {old : Option α} {owners : List Owner}
    (hserves : session.memory.Serves (old.toList.map owner ++ owners)) :
    ∃ memory, (old.forM fun a ↦ Session.onMemory .broken (drop a)).run.run session =
        (.ok (), { session with memory }) ∧
      memory.Serves owners ∧ memory.Continues session.memory owners := by
  cases old with
  | none => exact ⟨session.memory, rfl, hserves, .refl _ _⟩
  | some a =>
    obtain ⟨memory, hrun, hafter, hcontinues⟩ := h session.memory owners a hserves
    exact ⟨memory, Session.run_onMemory session _ hrun, hafter, hcontinues⟩

/-! ## Owners -/

namespace Named

variable {α : Type} {values : Named α}

def owners (owner : α → Owner) (values : Named α) : List Owner :=
  values.map fun entry ↦ owner entry.2

theorem mem_owners {name : String} {value : α} (h : values.lookup name = some value)
    (owner : α → Owner) : owner value ∈ values.owners owner := by
  rw [List.lookup_eq_some_iff] at h
  obtain ⟨before, after, rfl, _⟩ := h
  simp [owners]

theorem Distinct.perm_owners_erase (h : values.Distinct) (owner : α → Owner) (name : String) :
    (values.owners owner).Perm
      ((values.lookup name).toList.map owner ++ (values.erase name).owners owner) := by
  cases hvalue : values.lookup name with
  | none => rw [erase_of_lookup_none hvalue]; rfl
  | some value => exact (h.perm_erase hvalue).symm.map _

end Named

namespace Session

variable {session : Session} {inHand : List Owner}

/-- All that is held in a session. -/
def owners (session : Session) : List Owner :=
  session.stores.owners Store.owner ++
    (session.views.owners View.owner ++ session.finders.owners TriangleFinder.owner)

/-- The blocks that are held in a session, or kept in the block tables. -/
def held (session : Session) : List Block :=
  session.owners.flatMap Owner.blocks ++ Memory.slots session.memory.tables

/-- The memory of a session serves what is held in the session, and what is in hand besides. -/
structure Balanced (session : Session) (inHand : List Owner) : Prop where
  serves : session.memory.Serves (inHand ++ session.owners)
  stores_distinct : session.stores.Distinct
  views_distinct : session.views.Distinct
  finders_distinct : session.finders.Distinct
  account_lt : ∀ counter, session.account = some counter →
    counter < session.memory.ledger.counters.size
  builder_account_lt : ∀ counter, session.builder.account = some counter →
    counter < session.memory.ledger.counters.size
  builder_valid : session.builder.Valid

theorem balanced_empty : empty.Balanced [] where
  serves := Memory.Serves.empty
  stores_distinct := Named.distinct_nil
  views_distinct := Named.distinct_nil
  finders_distinct := Named.distinct_nil
  account_lt := nofun
  builder_account_lt := nofun
  builder_valid := GraphBuilder.valid_new

/-- Replacing the memory by a later one. -/
theorem Balanced.withMemory (h : session.Balanced inHand) (others : List Owner) {memory : Memory}
    (hserves : memory.Serves (others ++ session.owners))
    (hextends : memory.ledger.Extends session.memory.ledger) :
    Balanced { session with memory } others where
  serves := hserves
  stores_distinct := h.stores_distinct
  views_distinct := h.views_distinct
  finders_distinct := h.finders_distinct
  account_lt := fun counter hcounter ↦
    (h.account_lt counter hcounter).trans_le hextends.size_counters
  builder_account_lt := fun counter hcounter ↦
    (h.builder_account_lt counter hcounter).trans_le hextends.size_counters
  builder_valid := h.builder_valid

/-- Part of a list may be replaced by what it is a permutation of. -/
theorem perm_replace {α : Type} {part taken rest : List α} (h : part.Perm (taken ++ rest))
    (before after : List α) :
    (before ++ (part ++ after)).Perm (taken ++ (before ++ (rest ++ after))) :=
  calc (before ++ (part ++ after))
    _ |>.Perm (before ++ ((taken ++ rest) ++ after)) := (h.append_right after).append_left before
    _ = before ++ (taken ++ (rest ++ after)) := by rw [List.append_assoc]
    _ |>.Perm (taken ++ (before ++ (rest ++ after))) := List.perm_append_comm_assoc _ _ _

theorem perm_owners_eraseStore (h : session.stores.Distinct) (name : String) :
    session.owners.Perm ((session.stores.lookup name).toList.map Store.owner ++
      owners { session with stores := session.stores.erase name }) :=
  perm_replace (h.perm_owners_erase Store.owner name) [] _

theorem perm_owners_eraseView (h : session.views.Distinct) (name : String) :
    session.owners.Perm ((session.views.lookup name).toList.map View.owner ++
      owners { session with views := session.views.erase name }) :=
  perm_replace (h.perm_owners_erase View.owner name) _ _

theorem perm_owners_eraseFinder (h : session.finders.Distinct) (name : String) :
    session.owners.Perm ((session.finders.lookup name).toList.map TriangleFinder.owner ++
      owners { session with finders := session.finders.erase name }) := by
  have hperm := perm_replace (h.perm_owners_erase TriangleFinder.owner name)
    (session.stores.owners Store.owner ++ session.views.owners View.owner) []
  rw [List.append_nil, List.append_nil, List.append_assoc, List.append_assoc] at hperm
  exact hperm

theorem perm_owners_insertStore (session : Session) (name : String) (store : Store) :
    (store.owner :: owners { session with stores := session.stores.erase name }).Perm
      (owners { session with stores := session.stores.insert name store }) :=
  .refl _

theorem perm_owners_insertView (session : Session) (name : String) (view : View) :
    (view.owner :: owners { session with views := session.views.erase name }).Perm
      (owners { session with views := session.views.insert name view }) :=
  List.perm_middle.symm

theorem perm_owners_insertFinder (session : Session) (name : String) (finder : TriangleFinder) :
    (finder.owner :: owners { session with finders := session.finders.erase name }).Perm
      (owners { session with finders := session.finders.insert name finder }) :=
  List.perm_middle.symm.trans (List.perm_middle.symm.append_left _)

theorem owner_mem_owners {name : String} {view : View}
    (h : session.views.lookup name = some view) : view.owner ∈ session.owners :=
  List.mem_append_right _ (List.mem_append_left _ (Named.mem_owners h View.owner))

theorem owner_mem_owners_of_finder {name : String} {finder : TriangleFinder}
    (h : session.finders.lookup name = some finder) : finder.owner ∈ session.owners :=
  List.mem_append_right _ (List.mem_append_right _ (Named.mem_owners h TriangleFinder.owner))

theorem owner_mem_owners_of_store {name : String} {store : Store}
    (h : session.stores.lookup name = some store) : store.owner ∈ session.owners :=
  List.mem_append_left _ (Named.mem_owners h Store.owner)

theorem owners_eraseStore_subset (h : session.stores.Distinct) (name : String) :
    owners { session with stores := session.stores.erase name } ⊆ session.owners :=
  fun _ howner ↦ (perm_owners_eraseStore h name).mem_iff.mpr (List.mem_append_right _ howner)

theorem owners_eraseView_subset (h : session.views.Distinct) (name : String) :
    owners { session with views := session.views.erase name } ⊆ session.owners :=
  fun _ howner ↦ (perm_owners_eraseView h name).mem_iff.mpr (List.mem_append_right _ howner)

theorem owners_eraseFinder_subset (h : session.finders.Distinct) (name : String) :
    owners { session with finders := session.finders.erase name } ⊆ session.owners :=
  fun _ howner ↦ (perm_owners_eraseFinder h name).mem_iff.mpr (List.mem_append_right _ howner)

theorem blocks_subset_held {owner : Owner} (h : owner ∈ session.owners) :
    owner.blocks ⊆ session.held :=
  fun _ hblock ↦ List.mem_append_left _ (List.mem_flatMap.mpr ⟨owner, h, hblock⟩)

theorem held_subset {blocks : List Block} (hslots : Memory.slots session.memory.tables ⊆ blocks)
    (howners : ∀ owner ∈ session.owners, owner.blocks ⊆ blocks) : session.held ⊆ blocks := by
  intro block hblock
  rcases List.mem_append.mp hblock with hblock | hblock
  · obtain ⟨owner, howner, hblock⟩ := List.mem_flatMap.mp hblock
    exact howners owner howner hblock
  · exact hslots hblock

theorem held_insertStore_subset (h : session.stores.Distinct) {name : String} {store : Store}
    {memory : Memory} {blocks : List Block}
    (hslots : Memory.slots memory.tables ⊆ Memory.slots session.memory.tables ++ blocks) :
    held { session with memory, stores := session.stores.insert name store } ⊆
      session.held ++ blocks := by
  apply held_subset
  · rw [held, List.append_assoc]
    exact List.Subset.trans hslots (List.subset_append_right _ _)
  · intro owner howner
    rcases List.mem_cons.mp ((perm_owners_insertStore session name store).mem_iff.mpr howner) with
      rfl | howner
    · exact List.nil_subset _
    · exact List.Subset.trans (blocks_subset_held (owners_eraseStore_subset h name howner))
        (List.subset_append_left _ _)

theorem held_insertView_subset (h : session.views.Distinct) {name : String} {view : View}
    (hview : view.owner.blocks ⊆ session.held) {memory : Memory}
    (hslots : Memory.slots memory.tables ⊆ Memory.slots session.memory.tables) :
    held { session with memory, views := session.views.insert name view } ⊆ session.held := by
  apply held_subset (List.Subset.trans hslots (List.subset_append_right _ _))
  intro owner howner
  rcases List.mem_cons.mp ((perm_owners_insertView session name view).mem_iff.mpr howner) with
    rfl | howner
  · exact hview
  · exact blocks_subset_held (owners_eraseView_subset h name howner)

theorem held_eraseView_subset (h : session.views.Distinct) {name : String} {memory : Memory}
    (hslots : Memory.slots memory.tables ⊆ Memory.slots session.memory.tables) :
    held { session with memory, views := session.views.erase name } ⊆ session.held := by
  apply held_subset (List.Subset.trans hslots (List.subset_append_right _ _))
  intro owner howner
  exact blocks_subset_held (owners_eraseView_subset h name howner)

theorem held_insertFinder_subset (h : session.finders.Distinct) {name : String}
    {finder : TriangleFinder} (hfinder : finder.owner.blocks ⊆ session.held) {memory : Memory}
    (hslots : Memory.slots memory.tables ⊆ Memory.slots session.memory.tables) :
    held { session with memory, finders := session.finders.insert name finder } ⊆
      session.held := by
  apply held_subset (List.Subset.trans hslots (List.subset_append_right _ _))
  intro owner howner
  rcases List.mem_cons.mp ((perm_owners_insertFinder session name finder).mem_iff.mpr howner) with
    rfl | howner
  · exact hfinder
  · exact blocks_subset_held (owners_eraseFinder_subset h name howner)

/-! ## Assigning names -/

namespace Balanced

variable {store : Store} {view : View} {finder : TriangleFinder}

theorem withStores (h : session.Balanced inHand) {stores : Named Store} {others : List Owner}
    (hdistinct : stores.Distinct)
    (hperm : (inHand ++ session.owners).Perm (others ++ owners { session with stores })) :
    Balanced { session with stores } others :=
  ⟨h.serves.perm hperm, hdistinct, h.views_distinct, h.finders_distinct, h.account_lt,
    h.builder_account_lt, h.builder_valid⟩

theorem withViews (h : session.Balanced inHand) {views : Named View} {others : List Owner}
    (hdistinct : views.Distinct)
    (hperm : (inHand ++ session.owners).Perm (others ++ owners { session with views })) :
    Balanced { session with views } others :=
  ⟨h.serves.perm hperm, h.stores_distinct, hdistinct, h.finders_distinct, h.account_lt,
    h.builder_account_lt, h.builder_valid⟩

theorem withFinders (h : session.Balanced inHand) {finders : Named TriangleFinder}
    {others : List Owner} (hdistinct : finders.Distinct)
    (hperm : (inHand ++ session.owners).Perm (others ++ owners { session with finders })) :
    Balanced { session with finders } others :=
  ⟨h.serves.perm hperm, h.stores_distinct, h.views_distinct, hdistinct, h.account_lt,
    h.builder_account_lt, h.builder_valid⟩

/-- A store in hand gets a name, and an old one of that name is dropped. -/
theorem run_assignStore (h : session.Balanced [store.owner]) (name : String) :
    ∃ memory, (assignStore name store).run.run session =
        (.ok (), { session with memory, stores := session.stores.insert name store }) ∧
      Balanced { session with memory, stores := session.stores.insert name store } [] ∧
      memory.Continues session.memory
        (owners { session with stores := session.stores.insert name store }) := by
  have hperm := (perm_owners_eraseStore h.stores_distinct name).cons store.owner
  have hinserted := h.withStores (h.stores_distinct.insert name store)
    (hperm.trans (List.perm_middle.symm.trans
      ((perm_owners_insertStore session name store).append_left _)))
  obtain ⟨memory, hrun, hserves, hcontinues⟩ := Store.drops.run_forM _ hinserted.serves
  refine ⟨memory, ?_, hinserted.withMemory [] hserves hcontinues.ledger, hcontinues⟩
  simp only [assignStore, run_bind, run_get, run_modify]
  exact hrun

theorem run_assignView (h : session.Balanced [view.owner]) (name : String) :
    ∃ memory, (assignView name view).run.run session =
        (.ok (), { session with memory, views := session.views.insert name view }) ∧
      Balanced { session with memory, views := session.views.insert name view } [] ∧
      memory.Continues session.memory
        (owners { session with views := session.views.insert name view }) := by
  have hperm := (perm_owners_eraseView h.views_distinct name).cons view.owner
  have hinserted := h.withViews (h.views_distinct.insert name view)
    (hperm.trans (List.perm_middle.symm.trans
      ((perm_owners_insertView session name view).append_left _)))
  obtain ⟨memory, hrun, hserves, hcontinues⟩ := View.drops.run_forM _ hinserted.serves
  refine ⟨memory, ?_, hinserted.withMemory [] hserves hcontinues.ledger, hcontinues⟩
  simp only [assignView, updateView, run_bind, run_get, run_modify]
  exact hrun

theorem run_assignFinder (h : session.Balanced [finder.owner]) (name : String) :
    ∃ memory, (assignFinder name finder).run.run session =
        (.ok (), { session with memory, finders := session.finders.insert name finder }) ∧
      Balanced { session with memory, finders := session.finders.insert name finder } [] ∧
      memory.Continues session.memory
        (owners { session with finders := session.finders.insert name finder }) := by
  have hperm := (perm_owners_eraseFinder h.finders_distinct name).cons finder.owner
  have hinserted := h.withFinders (h.finders_distinct.insert name finder)
    (hperm.trans (List.perm_middle.symm.trans
      ((perm_owners_insertFinder session name finder).append_left _)))
  obtain ⟨memory, hrun, hserves, hcontinues⟩ := TriangleFinder.drops.run_forM _ hinserted.serves
  refine ⟨memory, ?_, hinserted.withMemory [] hserves hcontinues.ledger, hcontinues⟩
  simp only [assignFinder, run_bind, run_get, run_modify]
  exact hrun

/-- Taking what has a name into the hand. -/
theorem eraseStore (h : session.Balanced inHand) (name : String) :
    Balanced { session with stores := session.stores.erase name }
      ((session.stores.lookup name).toList.map Store.owner ++ inHand) := by
  apply h.withStores (h.stores_distinct.erase name)
  rw [List.append_assoc]
  exact ((perm_owners_eraseStore h.stores_distinct name).append_left inHand).trans
    (List.perm_append_comm_assoc _ _ _)

theorem eraseView (h : session.Balanced inHand) (name : String) :
    Balanced { session with views := session.views.erase name }
      ((session.views.lookup name).toList.map View.owner ++ inHand) := by
  apply h.withViews (h.views_distinct.erase name)
  rw [List.append_assoc]
  exact ((perm_owners_eraseView h.views_distinct name).append_left inHand).trans
    (List.perm_append_comm_assoc _ _ _)

theorem eraseFinder (h : session.Balanced inHand) (name : String) :
    Balanced { session with finders := session.finders.erase name }
      ((session.finders.lookup name).toList.map TriangleFinder.owner ++ inHand) := by
  apply h.withFinders (h.finders_distinct.erase name)
  rw [List.append_assoc]
  exact ((perm_owners_eraseFinder h.finders_distinct name).append_left inHand).trans
    (List.perm_append_comm_assoc _ _ _)

theorem holdView (h : session.Balanced inHand) {name : String}
    (hview : session.views.lookup name = some view) :
    Balanced { session with views := session.views.erase name } (view.owner :: inHand) := by
  have htaken := h.eraseView name
  rw [hview] at htaken
  exact htaken

/-- A view gives way to one with the same owner. -/
theorem replaceView (h : session.Balanced inHand) {name : String}
    (hview : session.views.lookup name = some view) {other : View}
    (howner : other.owner = view.owner) :
    Balanced { session with views := session.views.insert name other } inHand := by
  apply h.withViews (h.views_distinct.insert name other)
  have hperm := perm_owners_eraseView h.views_distinct name
  rw [hview] at hperm
  apply List.Perm.append_left
  apply hperm.trans
  rw [Option.toList_some, List.map_singleton, List.singleton_append, ← howner]
  exact perm_owners_insertView session name other

/-- A view gives way to one that owns something else, along with the memory. -/
theorem releaseView (h : session.Balanced []) {name : String} {memory : Memory}
    (hserves : memory.Serves (view.owner ::
      owners { session with views := session.views.erase name }))
    (hextends : memory.ledger.Extends session.memory.ledger) :
    Balanced { session with memory, views := session.views.insert name view } [] where
  serves := hserves.perm (perm_owners_insertView session name view)
  stores_distinct := h.stores_distinct
  views_distinct := h.views_distinct.insert name view
  finders_distinct := h.finders_distinct
  account_lt := fun counter hcounter ↦
    (h.account_lt counter hcounter).trans_le hextends.size_counters
  builder_account_lt := fun counter hcounter ↦
    (h.builder_account_lt counter hcounter).trans_le hextends.size_counters
  builder_valid := h.builder_valid

theorem replaceFinder (h : session.Balanced inHand) {name : String}
    (hfinder : session.finders.lookup name = some finder) {other : TriangleFinder}
    (howner : other.owner = finder.owner) :
    Balanced { session with finders := session.finders.insert name other } inHand := by
  apply h.withFinders (h.finders_distinct.insert name other)
  have hperm := perm_owners_eraseFinder h.finders_distinct name
  rw [hfinder] at hperm
  apply List.Perm.append_left
  apply hperm.trans
  rw [Option.toList_some, List.map_singleton, List.singleton_append, ← howner]
  exact perm_owners_insertFinder session name other

end Balanced

end Session

end PackedGraph
