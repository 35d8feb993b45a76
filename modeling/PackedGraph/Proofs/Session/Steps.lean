import PackedGraph.Proofs.Session.Balance
import PackedGraph.Proofs.View.Released

/-!
# What calls do

For every call of a session, what it answers and what the session is after it. A call that is
allowed leaves a balanced session balanced.
-/

namespace PackedGraph

theorem TriangleFinder.topology_find (finder : TriangleFinder) (node : Nat) :
    (finder.find node).1.topology = finder.topology := by
  unfold find
  split
  · rfl
  · rfl
  · split <;> rfl

/-- A triangle finder searches a topology that its view holds. -/
theorem View.topology_mem_of_triangles {view : View} {maxDegree : Nat} {finder : TriangleFinder}
    (h : view.triangles maxDegree = .ok finder) :
    .topology finder.topology ∈ view.owner.blocks := by
  unfold triangles at h
  split at h
  · exact absurd h nofun
  · next packed =>
    split_ifs at h
    split at h
    · next reader hreader =>
      rw [← Except.ok.inj h]
      unfold owner base PackedView.owner PackedView.topologyBlock
      rw [hreader]
      exact List.mem_cons_self
    · exact absurd h nofun

/-- The view below the last filter of a view, or the view itself if it has none. -/
def View.unfiltered : View → View
  | packed view => packed view
  | filtered inner _ => inner

theorem View.owner_unfiltered (view : View) : view.unfiltered.owner = view.owner := by
  cases view <;> rfl

namespace Session

variable {session : Session}

/-- A call uses no counter that is not there, and builds nothing that does not fit into the memory
along with all that is charged to the same account. -/
def Allows (session : Session) : SessionCall → Prop
  | .builder (.setAccount (some counter)) => counter < session.memory.ledger.counters.size
  | .build _ => ∀ graph, session.builder.compress = .ok graph →
    (session.memory.ledger.balance session.builder.account).toNat + graph.sizeInBytes < 2 ^ 64
  | _ => True

/-- The blocks that a call puts into memory. -/
def built (session : Session) (call : SessionCall) : List Block :=
  match call, session.perform call with
  | .build name, (.ok (), after) =>
    (after.stores.lookup name).elim [] fun store ↦
      (after.memory.tables[store.blockTable]?).elim [] BlockTable.blocks
  | _, _ => []

/-- A call leads from a balanced session to a balanced session. No charge is forgotten, and nothing
is held that was neither held before nor built by the call. -/
structure Leads (session : Session) (call : SessionCall) (outcome : Except SessionError Unit)
    (after : Session) : Prop where
  perform_eq : session.perform call = (outcome, after)
  avoids : Avoids SessionError.isOverdraft outcome
  balanced : after.Balanced []
  ledger : after.memory.ledger.Extends session.memory.ledger
  held : after.held ⊆ session.held ++ session.built call

theorem leads_of_subset {call : SessionCall} {outcome : Except SessionError Unit} {after : Session}
    (heq : session.perform call = (outcome, after))
    (havoids : Avoids SessionError.isOverdraft outcome)
    (hbalanced : after.Balanced []) (hledger : after.memory.ledger.Extends session.memory.ledger)
    (hheld : after.held ⊆ session.held) : session.Leads call outcome after :=
  ⟨heq, havoids, hbalanced, hledger, List.Subset.trans hheld (List.subset_append_left _ _)⟩

theorem held_moveView_subset (h : session.views.Distinct) {name as : String} {view : View}
    (hview : view.owner.blocks ⊆ session.held) {memory : Memory}
    (hslots : Memory.slots memory.tables ⊆ Memory.slots session.memory.tables) :
    held { session with memory, views := (session.views.erase name).insert as view } ⊆
      session.held := by
  apply held_subset (List.Subset.trans hslots (List.subset_append_right _ _))
  intro owner howner
  rcases List.mem_cons.mp ((perm_owners_insertView
    { session with views := session.views.erase name } as view).mem_iff.mpr howner) with
    rfl | howner
  · exact hview
  · exact blocks_subset_held (owners_eraseView_subset h name
      (owners_eraseView_subset (h.erase name) as howner))

/-- A call that replaces a view by one with the same owner. -/
theorem Balanced.leads_replaceView (h : session.Balanced []) {call : SessionCall} {name : String}
    {view other : View} (hview : session.views.lookup name = some view)
    (howner : other.owner = view.owner)
    (heq : session.perform call =
      (.ok (), { session with views := session.views.insert name other })) :
    session.Leads call (.ok ()) { session with views := session.views.insert name other } := by
  refine leads_of_subset heq (Avoids.ok ()) (h.replaceView hview howner) (.refl _) ?_
  apply held_insertView_subset h.views_distinct _ (List.Subset.refl _)
  rw [howner]
  exact blocks_subset_held (owner_mem_owners hview)

/-- A call on what is not there changes nothing. -/
theorem Balanced.leads_of_eq (h : session.Balanced []) {call : SessionCall} {error : SessionError}
    (herror : error.isOverdraft = false) (heq : session.perform call = (.error error, session)) :
    session.Leads call (.error error) session :=
  ⟨heq, Avoids.error herror, h, .refl _, List.subset_append_left _ _⟩

namespace Balanced

theorem leads_setAccount (h : session.Balanced []) (isCounting : Bool) :
    ∃ ledger account, session.Leads (.setAccount isCounting) (.ok ())
      { session with
        memory := ⟨ledger, session.memory.tables⟩
        account
        builder := { session.builder with account } } := by
  have hvalid : ∀ account, GraphBuilder.Valid { session.builder with account } := fun _ ↦
    ⟨h.builder_valid.ids, h.builder_valid.records, h.builder_valid.ends_lt,
      h.builder_valid.size_values⟩
  cases isCounting with
  | false =>
    exact ⟨session.memory.ledger, none, rfl, Avoids.ok (), ⟨h.serves, h.stores_distinct,
      h.views_distinct, h.finders_distinct, nofun, nofun, hvalid none⟩, .refl _,
      List.subset_append_left _ _⟩
  | true =>
    obtain ⟨hserves, hextends⟩ := h.serves.openCounter
    have hlt : ∀ counter, some session.memory.ledger.counters.size = some counter →
        counter < session.memory.ledger.openCounter.1.counters.size := by
      intro counter hcounter
      obtain rfl := Option.some.inj hcounter
      exact (Nat.lt_succ_self _).trans_eq (Array.size_push 0).symm
    exact ⟨_, _, rfl, Avoids.ok (), ⟨hserves, h.stores_distinct, h.views_distinct,
      h.finders_distinct, hlt, hlt, hvalid _⟩, hextends, List.subset_append_left _ _⟩

theorem leads_builder (h : session.Balanced []) {call : BuilderCall}
    (hallowed : session.Allows (.builder call)) :
    ∃ outcome, session.Leads (.builder call) outcome
      { session with builder := (session.builder.perform call).2 } := by
  have haccount := GraphBuilder.account_perform h.builder_valid call
  refine ⟨_, session.perform_builder call, ?_,
    ⟨h.serves, h.stores_distinct, h.views_distinct, h.finders_distinct, h.account_lt, ?_,
      h.builder_valid.perform call⟩, .refl _, List.subset_append_left _ _⟩
  · apply Avoids.map
    cases (session.builder.perform call).1 with
    | error error => exact Avoids.error rfl
    | ok answer => exact Avoids.ok answer
  · intro counter hcounter
    rw [haccount] at hcounter
    split at hcounter
    · subst hcounter
      exact hallowed
    · exact h.builder_account_lt counter hcounter

theorem leads_build_of_error (h : session.Balanced []) (name : String) {error : BuildError}
    (herror : session.builder.compress = .error error) :
    session.Leads (.build name) (.error (.build error)) { session with builder := .new } := by
  have hnew : Balanced { session with builder := .new } [] := ⟨h.serves, h.stores_distinct,
    h.views_distinct, h.finders_distinct, h.account_lt, nofun, GraphBuilder.valid_new⟩
  refine ⟨?_, Avoids.error rfl, hnew, .refl _, List.subset_append_left _ _⟩
  simp only [perform, SessionCall.toCall, run_map, build, run_bind, run_get, run_modify,
    run_fromExcept, herror]
  rfl

theorem leads_build (h : session.Balanced []) {name : String}
    (hallowed : session.Allows (.build name)) {graph : CompressedGraph}
    (hgraph : session.builder.compress = .ok graph) :
    ∃ (charged : CompressedGraph) (ledger : Ledger) (memory : Memory),
      charged.uncharged = graph.uncharged ∧
      let store := charged.storeAt session.memory.tables.size
      (graph.toStore session.builder.account).run session.memory =
        (store, ⟨ledger, session.memory.tables.push charged.blockTable⟩) ∧
      session.Leads (.build name) (.ok ()) { session with
        builder := .new, memory, stores := session.stores.insert name store } ∧
      memory.Continues ⟨ledger, session.memory.tables.push charged.blockTable⟩
        (owners { session with stores := session.stores.insert name store }) ∧
      ∀ block ∈ session.built (.build name),
        memory.ledger.Charges session.builder.account block := by
  have hnew : Balanced { session with builder := .new } [] := ⟨h.serves, h.stores_distinct,
    h.views_distinct, h.finders_distinct, h.account_lt, nofun, GraphBuilder.valid_new⟩
  obtain ⟨charged, ledger, huncharged, hstore, hcharged, hserves, hextends⟩ :=
    h.serves.toStore h.builder_account_lt (hallowed graph hgraph)
  let store := charged.storeAt session.memory.tables.size
  have hheld := hnew.withMemory [store.owner] hserves hextends
  obtain ⟨memory, hassign, hbalanced, hcontinues⟩ := hheld.run_assignStore name
  have hperform : session.perform (.build name) = (.ok (), { session with
      builder := .new, memory, stores := session.stores.insert name store }) := by
    have hlift : (liftM (graph.toStore session.builder.account) :
        Memory.Update Store).run.run session.memory = _ :=
      run_lift (graph.toStore session.builder.account) session.memory
    rw [hstore] at hlift
    have hcharge : (onMemory .broken (liftM (graph.toStore session.builder.account))).run.run
        { session with builder := .new } = _ := run_onMemory _ _ hlift
    simp only [perform, SessionCall.toCall, run_map, build, run_bind, run_get, run_modify,
      run_fromExcept, hgraph, Except.mapError, hcharge, hassign, run_pure, store]
    rfl
  have hcontents := hcontinues.contents_eq store.blockTable
    (List.mem_flatMap.mpr ⟨store.owner, List.mem_cons_self, List.mem_singleton_self _⟩)
  have htable : store.blockTable = session.memory.tables.size := rfl
  rw [Memory.contents, Memory.contents, htable, Array.getElem?_push_size, Option.map_some]
    at hcontents
  obtain ⟨kept, hkept, hkeptContents⟩ := Option.map_eq_some_iff.mp hcontents
  have hblocks : session.built (.build name) = charged.blockTable.blocks := by
    rw [← BlockTable.blocks_congr hkeptContents]
    unfold built
    rw [hperform]
    simp only [Named.lookup_insert_self, htable, hkept, Option.elim_some]
  refine ⟨charged, ledger, memory, huncharged, hstore, ⟨hperform, Avoids.ok (), hbalanced,
    hcontinues.ledger.trans hextends, ?_⟩, hcontinues, fun block hblock ↦
    hcontinues.ledger.charges (hcharged block (hblocks ▸ hblock))⟩
  rw [hblocks]
  apply held_insertStore_subset h.stores_distinct
  rw [← Memory.slots_push]
  exact hcontinues.slots_subset

theorem leads_openView (h : session.Balanced []) (name : String) (key : Option String)
    (as : String) :
    (∃ error, session.Leads (.openView name key as) (.error error) session) ∨
      ∃ store topology values position memory,
        session.stores.lookup name = some store ∧
        store.blocks session.memory key = .ok (topology, values, position) ∧
        session.Leads (.openView name key as) (.ok ())
          { session with
            memory
            views :=
              session.views.insert as (.packed (store.opened topology values position)) } ∧
        memory.Continues session.memory (owners { session with
          views :=
            session.views.insert as (.packed (store.opened topology values position)) }) := by
  cases hstore : session.stores.lookup name with
  | none =>
    refine .inl ⟨.missing, h.leads_of_eq rfl ?_⟩
    simp only [perform, SessionCall.toCall, openView, run_bind, run_store, hstore]
  | some store =>
    rcases h.serves.openView (owner_mem_owners_of_store hstore) key with
      ⟨error, hopen, hsafe⟩ |
      ⟨topology, values, position, ledger, hblocks, hopen, hserves, hextends⟩
    · refine .inl ⟨.view error, h.leads_of_eq hsafe ?_⟩
      simp only [perform, SessionCall.toCall, openView, run_bind, run_store, hstore,
        run_onMemory session _ hopen]
      rfl
    · have hheld := h.withMemory
        [View.owner (.packed (store.opened topology values position))] hserves hextends
      obtain ⟨memory, hassign, hbalanced, hcontinues⟩ := hheld.run_assignView as
      have hlater := (Memory.continues_hold hextends _ _).trans hcontinues (List.Subset.refl _)
      refine .inr ⟨store, topology, values, position, memory, rfl, hblocks,
        leads_of_subset ?_ (Avoids.ok ()) hbalanced hlater.ledger
          (held_insertView_subset h.views_distinct ?_ hlater.slots_subset), hlater⟩
      swap
      · exact List.Subset.trans (Memory.blocks_opened_subset hblocks) (List.subset_append_right _ _)
      simp only [perform, SessionCall.toCall, openView, run_bind, run_store, hstore,
        run_onMemory session _ hopen]
      exact hassign

theorem leads_copy (h : session.Balanced []) (name as : String) :
    session.Leads (.copy name as) (.error .missing) session ∨
      ∃ view memory, session.views.lookup name = some view ∧
        session.Leads (.copy name as) (.ok ())
          { session with memory, views := session.views.insert as view.fresh } ∧
        memory.Continues session.memory
          (owners { session with views := session.views.insert as view.fresh }) := by
  cases hview : session.views.lookup name with
  | none =>
    refine .inl (h.leads_of_eq rfl ?_)
    simp only [perform, SessionCall.toCall, copy, run_bind, run_view, hview]
  | some view =>
    obtain ⟨ledger, hcopy, hserves, hextends⟩ := h.serves.copy (owner_mem_owners hview)
    have hheld := h.withMemory [view.fresh.owner] hserves hextends
    obtain ⟨memory, hassign, hbalanced, hcontinues⟩ := hheld.run_assignView as
    have hlater := (Memory.continues_hold hextends _ _).trans hcontinues (List.Subset.refl _)
    have hblocks : view.fresh.owner.blocks ⊆ session.held := by
      rw [view.owner_fresh]
      exact blocks_subset_held (owner_mem_owners hview)
    refine .inr ⟨view, memory, rfl, leads_of_subset ?_ (Avoids.ok ()) hbalanced hlater.ledger
      (held_insertView_subset h.views_distinct hblocks hlater.slots_subset), hlater⟩
    have hlift : (liftM view.copy : Memory.Update View).run.run session.memory = _ :=
      run_lift view.copy session.memory
    rw [hcopy] at hlift
    simp only [perform, SessionCall.toCall, copy, run_bind, run_view, hview,
      run_onMemory session _ hlift]
    exact hassign

theorem leads_filter (h : session.Balanced []) (name : String) (labels : List String)
    (as : String) :
    (session.views.lookup name = none ∧
        session.Leads (.filter name labels as) (.error .missing) session) ∨
      ∃ view memory, session.views.lookup name = some view ∧
        ((∃ error, view.filter labels = .error error ∧
            session.Leads (.filter name labels as) (.error (.view error))
              { session with memory, views := session.views.erase name } ∧
            memory.Continues session.memory
              (owners { session with views := session.views.erase name })) ∨
          ∃ filtered, view.filter labels = .ok filtered ∧
            session.Leads (.filter name labels as) (.ok ())
              { session with
                memory, views := (session.views.erase name).insert as filtered } ∧
            memory.Continues session.memory
              (owners { session with
                views := (session.views.erase name).insert as filtered })) := by
  cases hview : session.views.lookup name with
  | none =>
    refine .inl ⟨rfl, h.leads_of_eq rfl ?_⟩
    simp only [perform, SessionCall.toCall, filter, takeView, run_bind, run_view, hview]
  | some view =>
    have htaken := h.holdView hview
    refine .inr ⟨view, ?_⟩
    cases hfilter : view.filter labels with
    | error error =>
      obtain ⟨memory, hdrop, hserves, hcontinues⟩ := View.drops session.memory _ view htaken.serves
      refine ⟨memory, rfl, .inl ⟨error, rfl, leads_of_subset ?_ (Avoids.error ?_)
        (htaken.withMemory [] hserves hcontinues.ledger) hcontinues.ledger
        (held_eraseView_subset h.views_distinct hcontinues.slots_subset), hcontinues⟩⟩
      · have hrun : (onMemory .broken view.drop).run.run
            { session with views := session.views.erase name } = _ := run_onMemory _ _ hdrop
        simp only [perform, SessionCall.toCall, filter, takeView, run_bind, run_view, hview,
          run_modify, run_pure, hfilter, hrun]
        rfl
      · exact view.avoids_filter labels error hfilter
    | ok filtered =>
      obtain ⟨inner, filter, rfl, hfresh, _⟩ := View.exists_of_filter_eq hfilter
      rw [← View.owner_of_fresh hfresh] at htaken
      have hfiltered : Balanced { session with views := session.views.erase name }
          [View.owner (.filtered inner filter)] := htaken
      obtain ⟨memory, hassign, hbalanced, hcontinues⟩ := hfiltered.run_assignView as
      have hblocks : View.owner (.filtered inner filter) ∈ session.owners :=
        View.owner_of_fresh hfresh ▸ owner_mem_owners hview
      refine ⟨memory, rfl, .inr ⟨_, rfl, leads_of_subset ?_ (Avoids.ok ()) hbalanced
        hcontinues.ledger (held_moveView_subset h.views_distinct (blocks_subset_held hblocks)
          hcontinues.slots_subset), hcontinues⟩⟩
      simp only [perform, SessionCall.toCall, Session.filter, takeView, run_bind, run_view, hview,
        run_modify, run_pure, hfilter]
      exact hassign

theorem leads_unfilter (h : session.Balanced []) (name as : String) :
    session.Leads (.unfilter name as) (.error .missing) session ∨
      ∃ view memory, session.views.lookup name = some view ∧
        session.Leads (.unfilter name as) (.ok ())
          { session with
            memory, views := (session.views.erase name).insert as view.unfiltered } ∧
        memory.Continues session.memory
          (owners { session with
            views := (session.views.erase name).insert as view.unfiltered }) := by
  cases hview : session.views.lookup name with
  | none =>
    refine .inl (h.leads_of_eq rfl ?_)
    simp only [perform, SessionCall.toCall, unfilter, takeView, run_bind, run_view, hview]
  | some view =>
    have htaken := h.holdView hview
    rw [← view.owner_unfiltered] at htaken
    obtain ⟨memory, hassign, hbalanced, hcontinues⟩ := htaken.run_assignView as
    have hblocks : view.unfiltered.owner ∈ session.owners :=
      view.owner_unfiltered ▸ owner_mem_owners hview
    refine .inr ⟨view, memory, rfl, leads_of_subset ?_ (Avoids.ok ()) hbalanced hcontinues.ledger
      (held_moveView_subset h.views_distinct (blocks_subset_held hblocks)
        hcontinues.slots_subset), hcontinues⟩
    simp only [perform, SessionCall.toCall, unfilter, takeView, run_bind, run_view, hview,
      run_modify, run_pure]
    cases view <;> exact hassign

theorem leads_setCanRelease (h : session.Balanced []) (name : String) (canRelease : Bool) :
    session.Leads (.setCanRelease name canRelease) (.error .missing) session ∨
      ∃ view, session.views.lookup name = some view ∧
        session.Leads (.setCanRelease name canRelease) (.ok ())
          { session with views := session.views.insert name (view.setCanRelease canRelease) } := by
  cases hview : session.views.lookup name with
  | none =>
    refine .inl (h.leads_of_eq rfl ?_)
    simp only [perform, SessionCall.toCall, setCanRelease, run_bind, run_view, hview]
  | some view =>
    refine .inr ⟨view, rfl, h.leads_replaceView hview (view.owner_setCanRelease canRelease) ?_⟩
    simp only [perform, SessionCall.toCall, setCanRelease, run_bind, run_view, hview]
    rfl

theorem leads_read (h : session.Balanced []) (name : String) {question : View → View}
    (hfresh : ∀ view, (question view).fresh = view.fresh) :
    session.Leads (.read name question hfresh) (.error .missing) session ∨
      ∃ view, session.views.lookup name = some view ∧
        session.Leads (.read name question hfresh) (.ok ())
          { session with views := session.views.insert name (question view) } := by
  cases hview : session.views.lookup name with
  | none =>
    refine .inl (h.leads_of_eq rfl ?_)
    simp only [perform, SessionCall.toCall, query, run_bind, run_view, hview]
  | some view =>
    refine .inr ⟨view, rfl, h.leads_replaceView hview (View.owner_of_fresh (hfresh view)) ?_⟩
    simp only [perform, SessionCall.toCall, query, run_bind, run_view, hview]
    rfl

/-- A view releases its topology only if it may, but it may be asked to at any time. -/
theorem leads_releaseTopology (h : session.Balanced []) (name : String) :
    session.Leads (.releaseTopology name) (.error .missing) session ∨
      ∃ view ledger, session.views.lookup name = some view ∧
        session.Leads (.releaseTopology name) (.ok ())
          { session with
            memory := ⟨ledger, view.base.tablesWithoutTopology session.memory.tables⟩
            views := session.views.insert name (view.mapBase PackedView.withoutTopology) } := by
  cases hview : session.views.lookup name with
  | none =>
    refine .inl (h.leads_of_eq rfl ?_)
    simp only [perform, SessionCall.toCall, releaseTopology, run_bind, run_view, hview]
  | some view =>
    obtain ⟨ledger, hrun, hserves, hextends⟩ := (h.holdView hview).serves.view_releaseTopology
    have hblocks : (view.mapBase PackedView.withoutTopology).owner.blocks ⊆ session.held := by
      rw [View.owner, view.base_mapBase]
      exact List.Subset.trans view.base.blocks_withoutTopology_subset
        (blocks_subset_held (owner_mem_owners hview))
    refine .inr ⟨view, ledger, rfl, leads_of_subset ?_ (Avoids.ok ())
      (h.releaseView hserves hextends) hextends (held_insertView_subset h.views_distinct hblocks
        (Memory.slots_tablesWithoutTopology_subset _ _))⟩
    have hrelease := run_onMemory session .broken hrun
    simp only [perform, SessionCall.toCall, releaseTopology, run_bind, run_view, hview, hrelease]
    rfl

theorem leads_releaseValues (h : session.Balanced []) (name : String) :
    session.Leads (.releaseValues name) (.error .missing) session ∨
      ∃ view ledger, session.views.lookup name = some view ∧
        session.Leads (.releaseValues name) (.ok ())
          { session with
            memory := ⟨ledger, view.base.tablesWithoutValues session.memory.tables⟩
            views := session.views.insert name (view.mapBase PackedView.withoutValues) } := by
  cases hview : session.views.lookup name with
  | none =>
    refine .inl (h.leads_of_eq rfl ?_)
    simp only [perform, SessionCall.toCall, releaseValues, run_bind, run_view, hview]
  | some view =>
    obtain ⟨ledger, hrun, hserves, hextends⟩ := (h.holdView hview).serves.view_releaseValues
    have hblocks : (view.mapBase PackedView.withoutValues).owner.blocks ⊆ session.held := by
      rw [View.owner, view.base_mapBase]
      exact List.Subset.trans view.base.blocks_withoutValues_subset
        (blocks_subset_held (owner_mem_owners hview))
    refine .inr ⟨view, ledger, rfl, leads_of_subset ?_ (Avoids.ok ())
      (h.releaseView hserves hextends) hextends (held_insertView_subset h.views_distinct hblocks
        (Memory.slots_tablesWithoutValues_subset _ _))⟩
    have hrelease := run_onMemory session .broken hrun
    simp only [perform, SessionCall.toCall, releaseValues, run_bind, run_view, hview, hrelease]
    rfl

theorem leads_findTriangles (h : session.Balanced []) (name : String) (maxDegree : Nat)
    (as : String) :
    (∃ error, session.Leads (.findTriangles name maxDegree as) (.error error) session) ∨
      ∃ view finder memory, session.views.lookup name = some view ∧
        view.triangles maxDegree = .ok finder ∧
        session.Leads (.findTriangles name maxDegree as) (.ok ())
          { session with memory, finders := session.finders.insert as finder } ∧
        memory.Continues session.memory
          (owners { session with finders := session.finders.insert as finder }) := by
  cases hview : session.views.lookup name with
  | none =>
    refine .inl ⟨.missing, h.leads_of_eq rfl ?_⟩
    simp only [perform, SessionCall.toCall, findTriangles, run_bind, run_view, hview]
  | some view =>
    cases hfinder : view.triangles maxDegree with
    | error error =>
      refine .inl ⟨.view error, h.leads_of_eq (view.avoids_triangles maxDegree error hfinder) ?_⟩
      simp only [perform, SessionCall.toCall, findTriangles, run_bind, run_view, hview,
        run_fromExcept, hfinder]
      rfl
    | ok finder =>
      have hblock := View.topology_mem_of_triangles hfinder
      obtain ⟨ledger, hhold, hserves, hextends⟩ := h.serves.hold_finder finder
        (List.mem_append_left _ (List.mem_flatMap.mpr ⟨_, owner_mem_owners hview, hblock⟩))
      have hheld := h.withMemory [finder.owner] hserves hextends
      obtain ⟨memory, hassign, hbalanced, hcontinues⟩ := hheld.run_assignFinder as
      have hlater := (Memory.Continues.of_ledger hextends _).trans hcontinues (List.Subset.refl _)
      have hblocks : finder.owner.blocks ⊆ session.held := List.cons_subset.mpr
        ⟨blocks_subset_held (owner_mem_owners hview) hblock, List.nil_subset _⟩
      refine .inr ⟨view, finder, memory, rfl, hfinder, leads_of_subset ?_ (Avoids.ok ()) hbalanced
        hlater.ledger (held_insertFinder_subset h.finders_distinct hblocks hlater.slots_subset),
        hlater⟩
      have hlift : (liftM finder.hold : Memory.Update Unit).run.run session.memory = _ :=
        run_lift finder.hold session.memory
      rw [hhold] at hlift
      simp only [perform, SessionCall.toCall, findTriangles, run_bind, run_view, hview,
        run_fromExcept, hfinder, Except.mapError, run_onMemory session _ hlift]
      exact hassign

theorem leads_trianglesOf (h : session.Balanced []) (name : String) (node : Nat) :
    session.Leads (.trianglesOf name node) (.error .missing) session ∨
      ∃ finder, session.finders.lookup name = some finder ∧
        session.Leads (.trianglesOf name node) (.ok ())
          { session with
            finders := session.finders.insert name (finder.find node).1 } := by
  cases hfinder : session.finders.lookup name with
  | none =>
    refine .inl (h.leads_of_eq rfl ?_)
    simp only [perform, SessionCall.toCall, trianglesOf, run_map, run_bind, run_finder, hfinder]
    rfl
  | some finder =>
    have howner : (finder.find node).1.owner = finder.owner := by
      rw [TriangleFinder.owner, finder.topology_find, TriangleFinder.owner]
    have hblocks : (finder.find node).1.owner.blocks ⊆ session.held := by
      rw [howner]
      exact blocks_subset_held (owner_mem_owners_of_finder hfinder)
    refine .inr ⟨finder, rfl, leads_of_subset ?_ (Avoids.ok ()) (h.replaceFinder hfinder howner)
      (.refl _) (held_insertFinder_subset h.finders_distinct hblocks (List.Subset.refl _))⟩
    simp only [perform, SessionCall.toCall, trianglesOf, run_map, run_bind, run_finder, hfinder]
    rfl

theorem leads_drop (h : session.Balanced []) (name : String) :
    ∃ memory, session.Leads (.drop name) (.ok ())
        { session with
          memory
          stores := session.stores.erase name
          views := session.views.erase name
          finders := session.finders.erase name } ∧
      memory.Continues session.memory
        (owners { session with
          stores := session.stores.erase name
          views := session.views.erase name
          finders := session.finders.erase name }) := by
  let erased : Session := { session with
    stores := session.stores.erase name
    views := session.views.erase name
    finders := session.finders.erase name }
  have herased : erased.Balanced _ := ((h.eraseFinder name).eraseStore name).eraseView name
  have hserves := herased.serves
  simp only [List.append_assoc, List.nil_append] at hserves
  obtain ⟨first, hview, hserves, hfirst⟩ := View.drops.run_forM erased hserves
  obtain ⟨second, hstore, hserves, hsecond⟩ :=
    Store.drops.run_forM { erased with memory := first } hserves
  obtain ⟨third, hfinder, hserves, hthird⟩ :=
    TriangleFinder.drops.run_forM { erased with memory := second } hserves
  have hcontinues := (hfirst.trans hsecond fun _ ↦ List.mem_append_right _).trans hthird
    fun _ ↦ List.mem_append_right _
  have hsub : erased.owners ⊆ session.owners := List.Subset.trans
    (owners_eraseView_subset ((h.eraseFinder name).eraseStore name).views_distinct name)
    (List.Subset.trans (owners_eraseStore_subset (h.eraseFinder name).stores_distinct name)
      (owners_eraseFinder_subset h.finders_distinct name))
  refine ⟨third, leads_of_subset ?_ (Avoids.ok ()) (herased.withMemory [] hserves hcontinues.ledger)
    hcontinues.ledger (held_subset (List.Subset.trans hcontinues.slots_subset
      (List.subset_append_right _ _)) fun _ howner ↦ blocks_subset_held (hsub howner)),
    hcontinues⟩
  have hset (state : Session) : (set state : Call Unit).run.run session = (.ok (), state) := rfl
  simp only [erased] at hview hstore hfinder
  simp only [perform, SessionCall.toCall, Session.drop, run_map, run_bind, run_get, hset, hview,
    hstore, hfinder, run_pure]
  rfl

end Balanced

end Session

end PackedGraph
