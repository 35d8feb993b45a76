import PackedGraph.Proofs.Session.Protocol
import PackedGraph.Proofs.Session.Tracking

/-!
# Sessions that agree with a protocol

A session agrees with the protocol of a store when the block table of the store holds what has not
been released, and the views stand for what the protocol says of them. Every call preserves this.
-/

namespace PackedGraph

/-- The contents of a block table after a change of it. -/
theorem Memory.contents_modify_self {memory : Memory} {ledger : Ledger} {number : Nat}
    {f : BlockTable → BlockTable}
    {g : Option Topology × Array (Option ValueTable) → Option Topology × Array (Option ValueTable)}
    (h : ∀ table, (f table).contents = g table.contents) :
    contents ⟨ledger, memory.tables.modify number f⟩ number = (memory.contents number).map g := by
  unfold contents
  rw [Array.getElem?_modify, if_pos rfl, Option.map_map, Option.map_map]
  exact congrArg (Option.map · _) (funext h)

namespace Protocol

/-- A name stands for a view that is derived from a store, for a view that is not, or for none. -/
def Relates (store : Store) (graph : CompressedGraph) : Option Lineage → Option View → Prop
  | some lineage, some view => lineage.Describes store graph view
  | none, some view => view.base.blockTable ≠ store.blockTable
  | none, none => True
  | some _, none => False

section

variable {store : Store} {graph : CompressedGraph} {lineage : Option Lineage} {view other : View}
  {lineages : String → Option Lineage} {views : Named View}

theorem Relates.exists_view {derived : Lineage} {found : Option View}
    (h : Relates store graph (some derived) found) : ∃ view, found = some view := by
  cases found with
  | none => exact h.elim
  | some view => exact ⟨view, rfl⟩

/-- A view with the same owner stands for the same as long as it is described the same. -/
theorem Relates.change (h : Relates store graph lineage (some view))
    (howner : other.owner = view.owner)
    (hdescribes : ∀ l : Lineage, l.Describes store graph view → l.Describes store graph other) :
    Relates store graph lineage (some other) := by
  cases lineage with
  | some lineage => exact hdescribes lineage h
  | none =>
    have htable : other.base.blockTable = view.base.blockTable :=
      (List.cons.inj (congrArg Owner.tables howner)).1
    exact htable.trans_ne h

theorem Relates.mapBase_of_none (h : Relates store graph none (some view))
    {f : PackedView → PackedView} (hf : (f view.base).blockTable = view.base.blockTable) :
    Relates store graph none (some (view.mapBase f)) := by
  change (view.mapBase f).base.blockTable ≠ store.blockTable
  rw [View.base_mapBase, hf]
  exact h

theorem Relates.setCanRelease (h : Relates store graph lineage (some view)) {canRelease : Bool} :
    Relates store graph (lineage.map fun lineage ↦ { lineage with canRelease })
      (some (view.setCanRelease canRelease)) := by
  cases lineage with
  | some lineage => exact Lineage.Describes.setCanRelease h canRelease
  | none => exact Relates.mapBase_of_none h rfl

theorem relates_insert (h : ∀ n, Relates store graph (lineages n) (views.lookup n)) (name : String)
    (hview : Relates store graph lineage (some view)) (n : String) :
    Relates store graph (Function.update lineages name lineage n)
      ((views.insert name view).lookup n) := by
  by_cases hn : n = name
  · subst hn
    rw [Function.update_self, Named.lookup_insert_self]
    exact hview
  · rw [Function.update_of_ne hn, Named.lookup_insert_of_ne hn]
    exact h n

theorem relates_erase (h : ∀ n, Relates store graph (lineages n) (views.lookup n))
    (name n : String) :
    Relates store graph (Function.update lineages name none n) ((views.erase name).lookup n) := by
  by_cases hn : n = name
  · subst hn
    rw [Function.update_self, Named.lookup_erase_self]
    trivial
  · rw [Function.update_of_ne hn, Named.lookup_erase_of_ne hn]
    exact h n

end

/-- A session agrees with the protocol of a store that was made of the blocks of a graph. -/
structure Agrees (protocol : Protocol) (store : Store) (graph : CompressedGraph)
    (session : Session) : Prop where
  store_eq : ∀ name ∈ protocol.store, session.stores.lookup name = some store
  contents_eq : protocol.store.isSome = true →
    session.memory.contents store.blockTable = some (protocol.remaining graph)
  blockTable_lt : store.blockTable < session.memory.tables.size
  other_ne : ∀ name other, session.stores.lookup name = some other →
    protocol.store = some name ∨ other.blockTable ≠ store.blockTable
  relates : ∀ name, Relates store graph (protocol.views name) (session.views.lookup name)

namespace Agrees

variable {protocol : Protocol} {store : Store} {graph : CompressedGraph} {session after : Session}
  {name : String} {view : View}

theorem relates_of_lookup (h : protocol.Agrees store graph session)
    (hview : session.views.lookup name = some view) :
    Relates store graph (protocol.views name) (some view) :=
  hview ▸ h.relates name

/-- A call that leaves alone the stores and, as long as it has an owner, the block table of the
store. -/
theorem frame (h : protocol.Agrees store graph session) {views : String → Option Lineage}
    (hcontents : store.blockTable ∈ after.owners.flatMap Owner.tables →
      after.memory.contents store.blockTable = session.memory.contents store.blockTable)
    (hsize : after.memory.tables.size = session.memory.tables.size)
    (hstores : after.stores = session.stores)
    (hviews : ∀ name, Relates store graph (views name) (after.views.lookup name)) :
    Agrees { protocol with views } store graph after where
  store_eq := hstores ▸ h.store_eq
  contents_eq := by
    intro hsome
    obtain ⟨name, hname⟩ := Option.isSome_iff_exists.mp hsome
    have hstore : after.stores.lookup name = some store := hstores ▸ h.store_eq name hname
    have hmem : store.blockTable ∈ after.owners.flatMap Owner.tables := List.mem_flatMap.mpr
      ⟨_, Session.owner_mem_owners_of_store hstore, List.mem_singleton_self _⟩
    exact (hcontents hmem).trans (h.contents_eq hsome)
  blockTable_lt := hsize.symm ▸ h.blockTable_lt
  other_ne := hstores ▸ h.other_ne
  relates := hviews

theorem frame_of_continues (h : protocol.Agrees store graph session)
    {views : String → Option Lineage}
    (hcontinues : after.memory.Continues session.memory after.owners)
    (hstores : after.stores = session.stores)
    (hviews : ∀ name, Relates store graph (views name) (after.views.lookup name)) :
    Agrees { protocol with views } store graph after :=
  h.frame (hcontinues.contents_eq _) hcontinues.size_tables hstores hviews

/-- A call that replaces a view by one that stands for the same. -/
theorem replaceView (h : protocol.Agrees store graph session) {memory : Memory}
    (hcontents : memory.contents store.blockTable = session.memory.contents store.blockTable)
    (hsize : memory.tables.size = session.memory.tables.size)
    (hview : Relates store graph (protocol.views name) (some view)) :
    protocol.Agrees store graph
      { session with memory, views := session.views.insert name view } := by
  have hviews := relates_insert h.relates name hview
  rw [Function.update_eq_self] at hviews
  exact h.frame (fun _ ↦ hcontents) hsize rfl hviews

/-- A call that drops the store of a name, or replaces it. -/
theorem dropStore (h : protocol.Agrees store graph session) (name : String)
    {views : String → Option Lineage}
    (hothers : ∀ n ≠ name, after.stores.lookup n = session.stores.lookup n)
    (hname : ∀ other, after.stores.lookup name = some other → other.blockTable ≠ store.blockTable)
    (hcontents : store.blockTable ∈ after.owners.flatMap Owner.tables →
      after.memory.contents store.blockTable = session.memory.contents store.blockTable)
    (hsize : session.memory.tables.size ≤ after.memory.tables.size)
    (hviews : ∀ name, Relates store graph (views name) (after.views.lookup name)) :
    Agrees { protocol.dropStore name with views } store graph after := by
  have hstores : ∀ n ∈ (protocol.dropStore name).store,
      protocol.store = some n ∧ after.stores.lookup n = some store := by
    intro n hn
    obtain ⟨hstore, hne⟩ := Option.filter_eq_some_iff.mp hn
    exact ⟨hstore, (hothers n (bne_iff_ne.mp hne)).trans (h.store_eq n hstore)⟩
  refine ⟨fun n hn ↦ (hstores n hn).2, fun hsome ↦ ?_, h.blockTable_lt.trans_le hsize,
    fun n other hother ↦ ?_, hviews⟩
  · obtain ⟨n, hn⟩ := Option.isSome_iff_exists.mp hsome
    obtain ⟨hstore, hlookup⟩ := hstores n hn
    have hmem : store.blockTable ∈ after.owners.flatMap Owner.tables := List.mem_flatMap.mpr
      ⟨_, Session.owner_mem_owners_of_store hlookup, List.mem_singleton_self _⟩
    exact (hcontents hmem).trans (h.contents_eq (Option.isSome_iff_exists.mpr ⟨n, hstore⟩))
  · by_cases hn : n = name
    · subst hn
      exact .inr (hname other hother)
    · rw [hothers n hn] at hother
      exact (h.other_ne n other hother).imp_left fun hstore ↦
        Option.filter_eq_some_iff.mpr ⟨hstore, bne_iff_ne.mpr hn⟩

theorem step_drop (h : protocol.Agrees store graph session) (hbalanced : session.Balanced [])
    (name : String) :
    (protocol.step (.drop name) (session.perform (.drop name)).1.isOk).Agrees store graph
      (session.perform (.drop name)).2 := by
  obtain ⟨memory, hleads, hcontinues⟩ := hbalanced.leads_drop name
  rw [hleads.perform_eq]
  apply h.dropStore name (fun n hn ↦ Named.lookup_erase_of_ne hn) _ (hcontinues.contents_eq _)
    hcontinues.size_tables.ge (relates_erase h.relates name)
  intro other hother
  rw [Named.lookup_erase_self] at hother
  exact absurd hother nofun

theorem step_build (h : protocol.Agrees store graph session) (hbalanced : session.Balanced [])
    {name : String} (hallowed : session.Allows (.build name)) :
    (protocol.step (.build name) (session.perform (.build name)).1.isOk).Agrees store graph
      (session.perform (.build name)).2 := by
  cases hgraph : session.builder.compress with
  | error error =>
    rw [(hbalanced.leads_build_of_error name hgraph).perform_eq]
    exact h.frame_of_continues (.refl _ _) rfl h.relates
  | ok built =>
    obtain ⟨charged, ledger, memory, _, _, hleads, hcontinues, _⟩ :=
      hbalanced.leads_build hallowed hgraph
    rw [hleads.perform_eq]
    have hsize : memory.tables.size = session.memory.tables.size + 1 :=
      hcontinues.size_tables.trans (Array.size_push _)
    refine h.dropStore name (fun n hn ↦ Named.lookup_insert_of_ne hn) ?_ ?_ ?_ h.relates
    · intro other hother
      rw [Named.lookup_insert_self] at hother
      obtain rfl := Option.some.inj hother
      exact h.blockTable_lt.ne'
    · intro hmem
      refine (hcontinues.contents_eq _ hmem).trans ?_
      unfold Memory.contents
      rw [Array.getElem?_push_lt h.blockTable_lt, ← Array.getElem?_eq_getElem]
    · exact (Nat.le_succ _).trans hsize.ge

/-! ## Releases -/

/-- A view that is not derived from the store leaves its block table alone. -/
theorem contents_modify_of_ne {memory : Memory} {ledger : Ledger} {number : Nat}
    {f : BlockTable → BlockTable} (hnumber : number ≠ store.blockTable) :
    Memory.contents ⟨ledger, memory.tables.modify number f⟩ store.blockTable =
      memory.contents store.blockTable :=
  Memory.contents_modify fun _ hother _ ↦ absurd hother.symm hnumber

/-- A derived view releases a block, along with the block table of the store. -/
theorem release (h : protocol.Agrees store graph session) {released : Protocol} {ledger : Ledger}
    {f : BlockTable → BlockTable}
    (g : Option Topology × Array (Option ValueTable) → Option Topology × Array (Option ValueTable))
    {lineage : Lineage} (hstore : released.store = protocol.store)
    (hcontents : ∀ table, (f table).contents = g table.contents)
    (hremaining : released.remaining graph = g (protocol.remaining graph))
    (hviews : released.views = Function.update protocol.views name (some lineage))
    (hview : lineage.Describes store graph view) :
    released.Agrees store graph { session with
      memory := ⟨ledger, session.memory.tables.modify store.blockTable f⟩
      views := session.views.insert name view } where
  store_eq := hstore ▸ h.store_eq
  contents_eq := by
    intro hsome
    rw [Memory.contents_modify_self hcontents, h.contents_eq (hstore ▸ hsome), hremaining]
    rfl
  blockTable_lt := h.blockTable_lt.trans_eq Array.size_modify.symm
  other_ne := hstore ▸ h.other_ne
  relates := hviews ▸ relates_insert h.relates name hview

theorem step_releaseTopology (h : protocol.Agrees store graph session)
    (hbalanced : session.Balanced []) (name : String) :
    (protocol.step (.releaseTopology name)
      (session.perform (.releaseTopology name)).1.isOk).Agrees store graph
        (session.perform (.releaseTopology name)).2 := by
  rcases hbalanced.leads_releaseTopology name with hleads | ⟨view, ledger, hview, hleads⟩
  · rw [hleads.perform_eq]
    exact h
  have hrelates := h.relates_of_lookup hview
  have hreleases : ∀ lineage ∈ protocol.views name, lineage.releasesTopology =
      (view.base.canRelease && view.base.topology.isSome) := by
    intro lineage hlineage
    rw [hlineage] at hrelates
    rw [hrelates.canRelease_eq, hrelates.isSome_topology_eq]
    rfl
  rw [hleads.perform_eq]
  change (protocol.releaseTopology name).Agrees _ _ _
  unfold PackedView.tablesWithoutTopology
  cases hcase : view.base.canRelease && view.base.topology.isSome with
  | false =>
    rw [hcase] at hreleases
    rw [releaseTopology_of_not hreleases, View.mapBase_eq_self
      (PackedView.withoutTopology_eq_self hcase)]
    exact h.replaceView rfl rfl hrelates
  | true =>
    cases hlineage : protocol.views name with
    | none =>
      rw [hlineage] at hrelates hreleases
      rw [releaseTopology_of_not (hlineage ▸ nofun)]
      apply h.replaceView (contents_modify_of_ne hrelates) Array.size_modify
      rw [hlineage]
      exact Relates.mapBase_of_none hrelates view.base.blockTable_withoutTopology
    | some lineage =>
      rw [hlineage] at hrelates
      have hcanRelease := hrelates.canRelease_eq.symm.trans (Bool.and_eq_true_iff.mp hcase).1
      rw [releaseTopology_of_releases hlineage ((hreleases lineage hlineage).trans hcase),
        if_pos rfl, hrelates.blockTable_eq]
      exact h.release (fun contents ↦ (none, contents.2)) rfl (fun _ ↦ rfl) rfl rfl
        (hrelates.withoutTopology hcanRelease)

theorem step_releaseValues (h : protocol.Agrees store graph session)
    (hnodup : (graph.values.map Prod.fst).Nodup) (hbalanced : session.Balanced [])
    (name : String) :
    (protocol.step (.releaseValues name)
      (session.perform (.releaseValues name)).1.isOk).Agrees store graph
        (session.perform (.releaseValues name)).2 := by
  rcases hbalanced.leads_releaseValues name with hleads | ⟨view, ledger, hview, hleads⟩
  · rw [hleads.perform_eq]
    exact h
  have hrelates := h.relates_of_lookup hview
  rw [hleads.perform_eq]
  change (protocol.releaseValues name).Agrees _ _ _
  cases hcase : view.base.canRelease && view.base.values.isSome with
  | false =>
    have hreleases : ∀ lineage ∈ protocol.views name, lineage.releasedKey = none := by
      intro lineage hlineage
      rw [hlineage] at hrelates
      rw [hrelates.releasedKey_eq, hcase, if_neg Bool.false_ne_true]
    rw [releaseValues_of_not hreleases, PackedView.tablesWithoutValues_of_not hcase,
      View.mapBase_eq_self (PackedView.withoutValues_eq_self hcase)]
    exact h.replaceView rfl rfl hrelates
  | true =>
    obtain ⟨hcanRelease, hisSome⟩ := Bool.and_eq_true_iff.mp hcase
    obtain ⟨reader, hreader⟩ := Option.isSome_iff_exists.mp hisSome
    rw [PackedView.tablesWithoutValues_of_reader hcanRelease hreader]
    cases hlineage : protocol.views name with
    | none =>
      rw [hlineage] at hrelates
      rw [releaseValues_of_not (hlineage ▸ nofun)]
      apply h.replaceView (contents_modify_of_ne hrelates) Array.size_modify
      rw [hlineage]
      exact Relates.mapBase_of_none hrelates view.base.blockTable_withoutValues
    | some lineage =>
      rw [hlineage] at hrelates
      obtain ⟨key, table, hkey, htable⟩ := hrelates.exists_reader hreader
      have hreleased : lineage.releasedKey = some key := by
        rw [hrelates.releasedKey_eq, hcase, if_pos rfl, hkey]
      rw [releaseValues_of_releases hlineage hreleased, hrelates.blockTable_eq]
      exact h.release (fun contents ↦ (contents.1, contents.2.setIfInBounds reader.position none))
        rfl (fun _ ↦ rfl) (remaining_releaseValues hnodup htable protocol name _) rfl
        (hrelates.withoutValues (hrelates.canRelease_eq.symm.trans hcanRelease) (hkey ▸ rfl))

theorem step_openView (h : protocol.Agrees store graph session)
    (hkeys : store.keys = graph.values.map Prod.fst) (hnodup : store.keys.Nodup)
    (hbalanced : session.Balanced []) (name : String) (key : Option String) (as : String) :
    (protocol.step (.openView name key as)
      (session.perform (.openView name key as)).1.isOk).Agrees store graph
        (session.perform (.openView name key as)).2 := by
  rcases hbalanced.leads_openView name key as with
    ⟨error, hleads⟩ |
    ⟨opener, topology, values, position, memory, hopener, hblocks, hleads, hcontinues⟩
  · rw [hleads.perform_eq]
    exact h
  rw [hleads.perform_eq]
  refine h.frame_of_continues hcontinues rfl (relates_insert h.relates as ?_)
  by_cases hname : protocol.store = some name
  · obtain rfl : store = opener := Option.some.inj ((h.store_eq name hname).symm.trans hopener)
    obtain ⟨_, rfl, hoffers, _⟩ := (blocks_eq_ok_iff hkeys hnodup
      (h.contents_eq (Option.isSome_iff_exists.mpr ⟨name, hname⟩))).mp hblocks
    rw [if_pos hname]
    exact Lineage.Describes.opened hoffers
  · rw [if_neg hname]
    exact (h.other_ne name opener hopener).resolve_left hname

/-- Every call preserves agreement. -/
theorem step (h : protocol.Agrees store graph session)
    (hkeys : store.keys = graph.values.map Prod.fst) (hnodup : store.keys.Nodup)
    (hbalanced : session.Balanced []) {call : SessionCall} (hallowed : session.Allows call) :
    (protocol.step call (session.perform call).1.isOk).Agrees store graph
      (session.perform call).2 := by
  cases call with
  | setAccount isCounting =>
    obtain ⟨_, _, hleads⟩ := hbalanced.leads_setAccount isCounting
    rw [hleads.perform_eq]
    exact h.frame_of_continues (.of_ledger hleads.ledger _) rfl h.relates
  | builder call =>
    obtain ⟨outcome, hleads⟩ := hbalanced.leads_builder hallowed
    rw [hleads.perform_eq]
    exact h.frame_of_continues (.refl _ _) rfl h.relates
  | build name => exact h.step_build hbalanced hallowed
  | openView name key as => exact h.step_openView hkeys hnodup hbalanced name key as
  | copy name as =>
    obtain hleads | ⟨view, memory, hview, hleads, hcontinues⟩ := hbalanced.leads_copy name as
    · rw [hleads.perform_eq]
      exact h
    · rw [hleads.perform_eq]
      exact h.frame_of_continues hcontinues rfl (relates_insert h.relates as
        ((h.relates_of_lookup hview).change view.owner_fresh fun _ hview ↦ hview.fresh))
  | filter name labels as =>
    obtain ⟨hview, hleads⟩ | ⟨view, memory, hview, ⟨error, _, hleads, hcontinues⟩ |
        ⟨filtered, hfilter, hleads, hcontinues⟩⟩ := hbalanced.leads_filter name labels as
    · have hviews := relates_erase h.relates name
      rw [Named.erase_of_lookup_none hview] at hviews
      rw [hleads.perform_eq]
      exact h.frame_of_continues (.refl _ _) rfl hviews
    · rw [hleads.perform_eq]
      exact h.frame_of_continues hcontinues rfl (relates_erase h.relates name)
    · obtain ⟨inner, filter, rfl, hfresh, _⟩ := View.exists_of_filter_eq hfilter
      rw [hleads.perform_eq]
      exact h.frame_of_continues hcontinues rfl (relates_insert (relates_erase h.relates name) as
        ((h.relates_of_lookup hview).change (View.owner_of_fresh hfresh : inner.owner = view.owner)
          fun _ hview ↦ hview.of_filter hfilter))
  | unfilter name as =>
    obtain hleads | ⟨view, memory, hview, hleads, hcontinues⟩ := hbalanced.leads_unfilter name as
    · rw [hleads.perform_eq]
      exact h
    · rw [hleads.perform_eq]
      exact h.frame_of_continues hcontinues rfl (relates_insert (relates_erase h.relates name) as
        ((h.relates_of_lookup hview).change view.owner_unfiltered fun _ hview ↦ hview.unfiltered))
  | setCanRelease name canRelease =>
    obtain hleads | ⟨view, hview, hleads⟩ := hbalanced.leads_setCanRelease name canRelease
    · rw [hleads.perform_eq]
      exact h
    · rw [hleads.perform_eq]
      exact h.frame_of_continues (.refl _ _) rfl
        (relates_insert h.relates name (h.relates_of_lookup hview).setCanRelease)
  | releaseTopology name => exact h.step_releaseTopology hbalanced name
  | releaseValues name => exact h.step_releaseValues (hkeys ▸ hnodup) hbalanced name
  | read name question hfresh =>
    obtain hleads | ⟨view, hview, hleads⟩ := hbalanced.leads_read name hfresh
    · rw [hleads.perform_eq]
      exact h
    · rw [hleads.perform_eq]
      exact h.replaceView rfl rfl ((h.relates_of_lookup hview).change
        (View.owner_of_fresh (hfresh view)) fun _ hview ↦ hview.of_fresh (hfresh view))
  | findTriangles name maxDegree as =>
    obtain ⟨error, hleads⟩ | ⟨_, _, _, _, _, hleads, hcontinues⟩ :=
      hbalanced.leads_findTriangles name maxDegree as
    · rw [hleads.perform_eq]
      exact h
    · rw [hleads.perform_eq]
      exact h.frame_of_continues hcontinues rfl h.relates
  | trianglesOf name node =>
    obtain hleads | ⟨_, _, hleads⟩ := hbalanced.leads_trianglesOf name node
    · rw [hleads.perform_eq]
      exact h
    · rw [hleads.perform_eq]
      exact h.frame_of_continues (.refl _ _) rfl h.relates
  | drop name => exact h.step_drop hbalanced name

/-- Any sequence of calls preserves agreement. -/
theorem run (h : protocol.Agrees store graph session)
    (hkeys : store.keys = graph.values.map Prod.fst) (hnodup : store.keys.Nodup)
    (hbalanced : session.Balanced []) {calls : List SessionCall}
    (hallowed : session.AllowsAll calls) :
    (protocol.run session calls).Agrees store graph (session.performAll calls) := by
  induction calls generalizing protocol session with
  | nil => exact h
  | cons call calls ih =>
    obtain ⟨hcall, hcalls⟩ := hallowed
    exact ih (h.step hkeys hnodup hbalanced hcall) (hbalanced.leads hcall).balanced hcalls

end Agrees

theorem remaining_start (name : String) (graph : CompressedGraph) :
    (start name).remaining graph =
      (some graph.topology, (graph.values.map fun entry ↦ some entry.2).toArray) := by
  simp [remaining, start]

variable {session : Session} {name : String} {graph : CompressedGraph}

/-- A session agrees with the protocol of a store that has just been built. -/
theorem exists_agrees_start (hbalanced : session.Balanced [])
    (hallowed : session.Allows (.build name)) (hgraph : session.builder.compress = .ok graph) :
    let after := (session.perform (.build name)).2
    ∃ store charged, after.stores.lookup name = some store ∧
      charged.uncharged = graph.uncharged ∧ store.keys = charged.values.map Prod.fst ∧
      store.keys.Nodup ∧ (start name).Agrees store charged after ∧
      store.Keeps after.memory session.builder := by
  obtain ⟨charged, ledger, memory, huncharged, hstore, hleads, hcontinues, _⟩ :=
    hbalanced.leads_build hallowed hgraph
  obtain ⟨store, after, hkept, hkeeps⟩ :=
    (hbalanced.builder_valid.stores_of_compress hgraph).toStore session.builder.account
      session.memory
  obtain ⟨rfl, rfl⟩ := Prod.mk.inj (hkept.symm.trans hstore)
  let store := charged.storeAt session.memory.tables.size
  have hnumber : store.blockTable = session.memory.tables.size := rfl
  have hlookup : (session.stores.insert name store).lookup name = some store :=
    Named.lookup_insert_self _ _ _
  have hcontents := hcontinues.contents_eq store.blockTable
    (List.mem_flatMap.mpr ⟨store.owner, List.mem_cons_self, List.mem_singleton_self _⟩)
  have hused (number : Nat) (hnumber : number ∈ session.owners.flatMap Owner.tables) :
      number ≠ store.blockTable :=
    (hbalanced.serves.shares.user_lt number hnumber).ne
  rw [hleads.perform_eq]
  refine ⟨store, charged, hlookup, huncharged, rfl, ?_, ?_, hkeeps.of_sameBlocks hcontents⟩
  · rw [hkeeps.keys_eq]
    exact (hbalanced.builder_valid.buildable_of_compress hgraph).nodup_keys
  constructor
  case store_eq =>
    rintro n hn
    obtain rfl := Option.some.inj hn
    exact hlookup
  case contents_eq =>
    intro _
    rw [hcontents, remaining_start, Memory.contents, hnumber, Array.getElem?_push_size]
    rfl
  case blockTable_lt =>
    rw [hcontinues.size_tables, Array.size_push]
    exact Nat.lt_succ_self _
  case other_ne =>
    intro n other hother
    by_cases hn : n = name
    · exact .inl (congrArg some hn.symm)
    · rw [Named.lookup_insert_of_ne hn] at hother
      exact .inr (hused _ (List.mem_flatMap.mpr ⟨_, Session.owner_mem_owners_of_store hother,
        List.mem_singleton_self _⟩))
  case relates =>
    intro n
    cases hview : session.views.lookup n with
    | none => trivial
    | some view =>
      exact hused _ (List.mem_flatMap.mpr ⟨_, Session.owner_mem_owners hview,
        List.mem_singleton_self _⟩)

end Protocol

end PackedGraph
