import PackedGraph.Proofs.Session.Agreement

/-!
# What releases do

Whatever calls are made, what can be opened on a store, how many bytes it counts, and what a view
does for its readers follow from the protocol of releases. A release does nothing to other views.
-/

namespace PackedGraph

/-! ## Stores -/

/-- Values that are released at the position of a key leave what is found for other keys alone. -/
theorem Store.blocks_of_releaseValues {store : Store} {memory : Memory} {ledger : Ledger}
    {position : Nat} {released : String} (hposition : store.keys[position]? = some released)
    {key : Option String} (hkey : key ≠ some released) :
    store.blocks ⟨ledger, memory.tables.modify store.blockTable (·.releaseValues position)⟩ key =
      store.blocks memory key := by
  unfold blocks
  rw [Array.getElem?_modify, if_pos rfl]
  cases memory.tables[store.blockTable]? with
  | none => rfl
  | some table =>
    cases key with
    | none => rfl
    | some key =>
      cases hfind : store.keys.findIdx? (· == key) with
      | none => simp only [hfind, Option.map_some, Option.bind_some, BlockTable.releaseValues]
      | some found =>
        have hne : position ≠ found := by
          rintro rfl
          obtain ⟨hlt, hbeq, _⟩ := List.findIdx?_eq_some_iff_getElem.mp hfind
          rw [List.getElem?_eq_getElem hlt, eq_of_beq hbeq] at hposition
          exact hkey hposition
        simp only [hfind, Option.map_some, Option.bind_some, BlockTable.releaseValues,
          Array.getElem?_setIfInBounds_ne hne]

namespace Protocol

variable {protocol : Protocol} {store : Store} {graph : CompressedGraph} {memory origin : Memory}
  {name : String}

/-- The blocks that are left are those that the store had at first. -/
theorem onlyReleased
    (horigin : origin.contents store.blockTable = some ((start name).remaining graph))
    (hcontents : memory.contents store.blockTable = some (protocol.remaining graph)) :
    store.OnlyReleased origin memory := by
  intro later hlater
  obtain ⟨earlier, hearlier, hfirst⟩ := Option.map_eq_some_iff.mp horigin
  obtain ⟨table, htable, hleft⟩ := Option.map_eq_some_iff.mp hcontents
  obtain rfl : later = table := Option.some.inj (hlater.symm.trans htable)
  obtain ⟨htopology, hvalues⟩ := Prod.mk.inj hfirst
  obtain ⟨htopologyLeft, hvaluesLeft⟩ := Prod.mk.inj hleft
  refine ⟨earlier, hearlier, fun topology h ↦ ?_, fun position values h ↦ ?_⟩
  · rw [htopologyLeft] at h
    split at h
    · exact absurd h nofun
    · exact htopology.trans h
  · rw [hvaluesLeft, List.getElem?_toArray, List.getElem?_map] at h
    obtain ⟨entry, hentry, hkept⟩ := Option.map_eq_some_iff.mp h
    split at hkept
    · exact absurd hkept nofun
    · rw [hvalues, List.getElem?_toArray, List.getElem?_map, hentry, Option.map_some]
      exact congrArg some hkept

/-- A store follows the protocol. -/
structure Rules (protocol : Protocol) (store : Store) (graph : CompressedGraph)
    (memory : Memory) : Prop where
  opens_iff : ∀ key, (∃ view, ((store.view key).run.run memory).1 = .ok view) ↔
    protocol.topologyReleased = false ∧
      ∀ k ∈ key, k ∈ graph.values.map Prod.fst ∧ k ∉ protocol.valuesReleased
  sizeInBytes_eq : store.sizeInBytes memory =
    (if protocol.topologyReleased then 0 else graph.topology.sizeInBytes) +
      ((graph.values.filter (·.1 ∉ protocol.valuesReleased)).map (·.2.sizeInBytes)).sum

theorem sum_remaining (released : List String) (entries : List (String × ValueTable)) :
    ((entries.map fun entry ↦ if entry.1 ∈ released then none else some entry.2).map
        fun values ↦ values.elim 0 ValueTable.sizeInBytes).sum =
      ((entries.filter (·.1 ∉ released)).map (·.2.sizeInBytes)).sum := by
  induction entries with
  | nil => rfl
  | cons entry entries ih =>
    rw [List.map_cons, List.map_cons, List.sum_cons, ih]
    by_cases hentry : entry.1 ∈ released
    · rw [if_pos hentry, List.filter_cons_of_neg (by simpa using hentry)]
      exact Nat.zero_add _
    · rw [if_neg hentry, List.filter_cons_of_pos (by simpa using hentry), List.map_cons,
        List.sum_cons]
      rfl

theorem rules_of_contents {builder : GraphBuilder} (hkeeps : store.Keeps origin builder)
    (hkeys : store.keys = graph.values.map Prod.fst) (hnodup : store.keys.Nodup)
    (horigin : origin.contents store.blockTable = some ((start name).remaining graph))
    (hcontents : memory.contents store.blockTable = some (protocol.remaining graph)) :
    protocol.Rules store graph memory where
  opens_iff := by
    intro key
    constructor
    · rintro ⟨view, hview⟩
      cases hblocks : store.blocks memory key with
      | error error =>
        rw [Store.run_view_of_error hblocks] at hview
        exact absurd hview nofun
      | ok found =>
        obtain ⟨htopology, _, hoffers, hkept⟩ :=
          (blocks_eq_ok_iff hkeys hnodup hcontents).mp hblocks
        have hdeclared := CompressedGraph.exists_offers_iff.mp ⟨_, _, hoffers⟩
        exact ⟨htopology, fun k hk ↦ ⟨hdeclared k hk, hkept k hk⟩⟩
    · rintro ⟨htopology, hkey⟩
      obtain ⟨values, position, hoffers⟩ :=
        CompressedGraph.exists_offers_iff.mpr fun k hk ↦ (hkey k hk).1
      have hblocks := (blocks_eq_ok_iff hkeys hnodup hcontents).mpr
        ⟨htopology, rfl, hoffers, fun k hk ↦ (hkey k hk).2⟩
      obtain ⟨_, ledger, hrun⟩ :=
        hkeeps.shows_of_blocks (onlyReleased horigin hcontents) hblocks
      exact ⟨_, by rw [hrun]⟩
  sizeInBytes_eq := by
    obtain ⟨table, htable, hleft⟩ := Option.map_eq_some_iff.mp hcontents
    obtain ⟨htopology, hvalues⟩ := Prod.mk.inj hleft
    have hfirst : table.topology.elim 0 Topology.sizeInBytes =
        if protocol.topologyReleased then 0 else graph.topology.sizeInBytes := by
      rw [htopology]
      split <;> rfl
    unfold Store.sizeInBytes
    rw [htable]
    simp only
    rw [hfirst, hvalues, List.map_toArray, ← Array.foldl_toList, List.toList_toArray,
      ← List.sum_eq_foldl, sum_remaining]

/-- The charges of the blocks do not matter. -/
theorem Rules.of_uncharged {charged : CompressedGraph} (h : protocol.Rules store charged memory)
    (huncharged : charged.uncharged = graph.uncharged) : protocol.Rules store graph memory := by
  have hvalues (graph : CompressedGraph) :
      (graph.values.filter (·.1 ∉ protocol.valuesReleased)).map (·.2.sizeInBytes) =
        (graph.uncharged.values.filter (·.1 ∉ protocol.valuesReleased)).map
          (·.2.sizeInBytes) := by
    unfold CompressedGraph.uncharged
    rw [List.filter_map, List.map_map]
    rfl
  have htopology : charged.topology.sizeInBytes = graph.topology.sizeInBytes :=
    congrArg (fun graph ↦ graph.topology.sizeInBytes) huncharged
  constructor
  · rw [← graph.keys_uncharged, ← huncharged, charged.keys_uncharged]
    exact h.opens_iff
  · rw [hvalues graph, ← huncharged, ← hvalues charged, ← htopology]
    exact h.sizeInBytes_eq

/-- What was opened on a store keeps the contract of a view as long as nothing is released. -/
theorem contract_opened {builder : GraphBuilder} (hvalid : builder.Valid)
    (hkeeps : store.Keeps origin builder) (hkeys : store.keys = graph.values.map Prod.fst)
    (hnodup : store.keys.Nodup)
    (horigin : origin.contents store.blockTable = some ((start name).remaining graph))
    {key : Option String} {values : Option ValueTable} {position : Nat}
    (hoffers : graph.Offers key values position) :
    (View.packed (store.opened graph.topology values position)).Contract := by
  have hblocks : store.blocks origin key = .ok (graph.topology, values, position) :=
    (blocks_eq_ok_iff hkeys hnodup horigin).mpr
      ⟨rfl, rfl, hoffers, fun _ _ ↦ List.not_mem_nil⟩
  obtain ⟨hshows, _⟩ := hkeeps.shows_of_blocks (.refl store origin) hblocks
  exact hshows.contract hvalid hkeeps.size_columns

end Protocol

/-! ## Views -/

namespace Lineage

/-- What a view does for its readers: degrees and targets can be read unless the topology has been
released, and values unless they or the topology have been released. -/
structure Governs (lineage : Lineage) (view : View) : Prop where
  without_topology : lineage.topologyReleased = true → ∀ node < view.nodeCount,
    view.degree node = .error .topologyReleased ∧ view.Refuses node .topologyReleased ∧
      ∀ fallback, view.RefusesValues node fallback .topologyReleased
  with_topology : lineage.topologyReleased = false → ∀ node < view.nodeCount,
    (∃ degree, view.degree node = .ok degree) ∧ ∃ targets, view.HandsOut node targets
  without_values : lineage.topologyReleased = false → lineage.valuesReleased = true →
    ∀ node < view.nodeCount, ∀ fallback, view.RefusesValues node fallback .valuesReleased
  with_values : lineage.topologyReleased = false → lineage.valuesReleased = false →
    ∀ node < view.nodeCount, ∀ fallback, ∃ pairs, view.HandsOutValues node fallback pairs

variable {lineage : Lineage} {store : Store} {graph : CompressedGraph} {view : View}

theorem strip_topology_of_not (h : lineage.topologyReleased = false) (opened : PackedView) :
    (lineage.strip opened).topology = opened.topology :=
  if_neg (Bool.eq_false_iff.mp h)

theorem reading_strip (h : lineage.topologyReleased = false) (opened : PackedView) (node : Nat) :
    (lineage.strip opened).reading node = opened.reading node := by
  unfold PackedView.reading
  rw [strip_topology_of_not h]

theorem degree_strip (h : lineage.topologyReleased = false) (opened : PackedView) (node : Nat) :
    (View.packed (lineage.strip opened)).degree node = (View.packed opened).degree node := by
  unfold View.degree
  simp only [strip_topology_of_not h]

theorem valueReading_strip (h : lineage.topologyReleased = false)
    (hvalues : lineage.valuesReleased = false) (opened : PackedView) (node : Nat)
    (fallback : ValueBits) :
    (lineage.strip opened).valueReading node fallback = opened.valueReading node fallback := by
  have hkept : (lineage.strip opened).values = opened.values :=
    if_neg (Bool.eq_false_iff.mp hvalues)
  unfold PackedView.valueReading
  rw [reading_strip h, strip_topology_of_not h, hkept]
  rfl

namespace Describes

/-- Without its topology, a view fails on every node. -/
theorem governs_without_topology (h : lineage.Describes store graph view)
    (hreleased : lineage.topologyReleased = true) {node : Nat} (hnode : node < view.nodeCount) :
    view.degree node = .error .topologyReleased ∧ view.Refuses node .topologyReleased ∧
      ∀ fallback, view.RefusesValues node fallback .topologyReleased := by
  have htopology : view.base.topology = none := by
    rw [← Option.not_isSome_iff_eq_none, h.isSome_topology_eq, hreleased]
    exact Bool.false_ne_true
  have hfails (node : Nat) : view.base.reading node = .fail (.fault .topologyReleased) := by
    unfold PackedView.reading
    rw [htopology]
  have hfailsValues (node : Nat) (fallback : ValueBits) :
      view.base.valueReading node fallback = .fail (.fault .topologyReleased) := by
    unfold PackedView.valueReading
    rw [htopology, hfails]
    split <;> rfl
  refine ⟨View.degree_eq_error htopology node, ?_, fun fallback ↦ ?_⟩
  · apply View.refuses_of_reading
    exact h.filtersFit.reading_eq_fail (fun node _ ↦ hfails node) hnode
  · apply View.refusesValues_of_valueReading
    exact h.filtersFit.valueReading_eq_fail (fun node _ ↦ hfailsValues node fallback) hnode

/-- The view that was opened at first keeps its contract, and differs from the packed view below all
filters only in what has been released. -/
theorem exists_opened (h : lineage.Describes store graph view)
    (hcontract : ∀ values position, graph.Offers lineage.key values position →
      (View.packed (store.opened graph.topology values position)).Contract) :
    ∃ opened : PackedView, (View.packed opened).Contract ∧
      view.base.fresh = lineage.strip opened ∧ opened.hasValues = lineage.key.isSome ∧
      opened.topology.isSome = true := by
  obtain ⟨values, position, hoffers, hbase⟩ := h.base_eq
  refine ⟨_, hcontract values position hoffers, hbase, ?_, rfl⟩
  change values.isSome = _
  cases hkey : lineage.key with
  | none =>
    rw [hkey] at hoffers
    rw [hoffers.1]
    rfl
  | some key =>
    rw [hkey] at hoffers
    obtain ⟨table, rfl, _⟩ := hoffers
    rfl

theorem governs (h : lineage.Describes store graph view)
    (hcontract : ∀ values position, graph.Offers lineage.key values position →
      (View.packed (store.opened graph.topology values position)).Contract) :
    lineage.Governs view := by
  obtain ⟨opened, hopened, hbase, hhasValues, hisSome⟩ := h.exists_opened hcontract
  have hcount : view.base.ids.nodeCount = (View.packed opened).nodeCount :=
    congrArg (fun base ↦ base.ids.nodeCount) hbase
  have hreading (node : Nat) : view.base.reading node = (lineage.strip opened).reading node := by
    rw [← PackedView.reading_fresh, hbase]
  have hvalueReading (node : Nat) (fallback : ValueBits) : view.base.valueReading node fallback =
      (lineage.strip opened).valueReading node fallback := by
    rw [← PackedView.valueReading_fresh, hbase]
  constructor
  case without_topology => exact fun hreleased node ↦ h.governs_without_topology hreleased
  case with_topology =>
    intro hkept node hnode
    constructor
    · apply h.filtersFit.exists_degree_eq _ _ hnode
      · rw [h.isSome_topology_eq, hkept]
        rfl
      · intro node hnode
        rw [← (PackedView.SameData.fresh view.base).degree_eq, hbase, degree_strip hkept]
        exact ⟨_, hopened.degree_eq node (hcount ▸ hnode)⟩
    · obtain ⟨targets, htargets, _⟩ := h.filtersFit.exists_reading_eq (fun node hnode ↦ by
        rw [hreading, reading_strip hkept, hcount]
        rw [hcount] at hnode
        exact ⟨_, View.handsOut_iff.mp (hopened.handsOut node hnode),
          hopened.target_lt node hnode⟩) hnode
      exact ⟨targets, View.handsOut_iff.mpr htargets⟩
  case without_values =>
    intro hkept hreleased node hnode fallback
    apply View.refusesValues_of_valueReading
    apply h.filtersFit.valueReading_eq_fail _ hnode
    intro node _
    have hvalues : (lineage.strip opened).values = none := if_pos hreleased
    have hhas : (lineage.strip opened).hasValues = true := hhasValues.trans (h.isSome_key hreleased)
    obtain ⟨reader, hreader⟩ := Option.isSome_iff_exists.mp hisSome
    rw [hvalueReading]
    unfold PackedView.valueReading
    rw [if_pos hhas, strip_topology_of_not hkept, hreader, hvalues]
  case with_values =>
    intro hkept hkeptValues node hnode fallback
    obtain ⟨pairs, hpairs, _⟩ := h.filtersFit.exists_valueReading_eq (fun node hnode ↦ by
      rw [hvalueReading, valueReading_strip hkept hkeptValues, hcount]
      rw [hcount] at hnode
      exact ⟨_, View.handsOutValues_iff.mp (hopened.handsOutValues node hnode fallback),
        fun pair hpair ↦ hopened.target_lt node hnode pair.1 (hopened.fst_mem_targets hnode hpair)⟩)
          hnode
    exact ⟨pairs, View.handsOutValues_iff.mpr hpairs⟩

end Describes

end Lineage

/-! ## Calls -/

namespace Session

/-- A call changes nothing but the memory and the view of a name. -/
def ChangesOnly (session : Session) (call : SessionCall) (name : String) : Prop :=
  ∃ memory views, (session.perform call).2 = { session with memory, views } ∧
    ∀ other ≠ name, views.lookup other = session.views.lookup other

/-- A call succeeds and changes nothing but the order in which the views are listed. -/
def Ignores (session : Session) (call : SessionCall) : Prop :=
  ∃ views : Named View, session.perform call = (.ok (), { session with views }) ∧
    ∀ other, views.lookup other = session.views.lookup other

variable {session : Session} {name : String} {view : View}

theorem Balanced.changesOnly_releaseTopology (h : session.Balanced []) (name : String) :
    session.ChangesOnly (.releaseTopology name) name := by
  rcases h.leads_releaseTopology name with hleads | ⟨view, ledger, _, hleads⟩
  · exact ⟨_, _, congrArg Prod.snd hleads.perform_eq, fun _ _ ↦ rfl⟩
  · exact ⟨_, _, congrArg Prod.snd hleads.perform_eq, fun _ ↦ Named.lookup_insert_of_ne⟩

theorem Balanced.changesOnly_releaseValues (h : session.Balanced []) (name : String) :
    session.ChangesOnly (.releaseValues name) name := by
  rcases h.leads_releaseValues name with hleads | ⟨view, ledger, _, hleads⟩
  · exact ⟨_, _, congrArg Prod.snd hleads.perform_eq, fun _ _ ↦ rfl⟩
  · exact ⟨_, _, congrArg Prod.snd hleads.perform_eq, fun _ ↦ Named.lookup_insert_of_ne⟩

theorem ignores_releaseTopology (hview : session.views.lookup name = some view)
    (h : (view.base.canRelease && view.base.topology.isSome) = false) :
    session.Ignores (.releaseTopology name) := by
  have hrun : view.releaseTopology.run.run session.memory = (.ok view, session.memory) := by
    have hbase := View.run_updateBase (PackedView.run_releaseTopology_of_not h session.memory)
    rw [View.mapBase_eq_self (PackedView.withoutTopology_eq_self h)] at hbase
    exact hbase
  refine ⟨_, ?_, Named.lookup_insert_of_lookup hview⟩
  have hmemory := run_onMemory session .broken hrun
  simp only [perform, SessionCall.toCall, releaseTopology, run_bind, run_view, hview, hmemory]
  rfl

theorem ignores_releaseValues (hview : session.views.lookup name = some view)
    (h : (view.base.canRelease && view.base.values.isSome) = false) :
    session.Ignores (.releaseValues name) := by
  have hrun : view.releaseValues.run.run session.memory = (.ok view, session.memory) := by
    have hbase := View.run_updateBase (PackedView.run_releaseValues_of_not h session.memory)
    rw [View.mapBase_eq_self (PackedView.withoutValues_eq_self h)] at hbase
    exact hbase
  refine ⟨_, ?_, Named.lookup_insert_of_lookup hview⟩
  have hmemory := run_onMemory session .broken hrun
  simp only [perform, SessionCall.toCall, releaseValues, run_bind, run_view, hview, hmemory]
  rfl

/-- A view of one key leaves what its store finds for other keys alone. -/
theorem Balanced.blocks_releaseValues (h : session.Balanced []) {lineage : Lineage} {store : Store}
    {graph : CompressedGraph} (hkeys : store.keys = graph.values.map Prod.fst)
    (hview : session.views.lookup name = some view)
    (hdescribes : lineage.Describes store graph view) {key : Option String}
    (hkey : key ≠ lineage.key) :
    store.blocks (session.perform (.releaseValues name)).2.memory key =
      store.blocks session.memory key := by
  rcases h.leads_releaseValues name with hleads | ⟨other, ledger, hother, hleads⟩
  · rw [hleads.perform_eq]
  obtain rfl : view = other := Option.some.inj (hview.symm.trans hother)
  rw [hleads.perform_eq]
  cases hcase : view.base.canRelease && view.base.values.isSome with
  | false =>
    rw [PackedView.tablesWithoutValues_of_not hcase]
    rfl
  | true =>
    obtain ⟨hcanRelease, hisSome⟩ := Bool.and_eq_true_iff.mp hcase
    obtain ⟨reader, hreader⟩ := Option.isSome_iff_exists.mp hisSome
    obtain ⟨released, table, hreleased, htable⟩ := hdescribes.exists_reader hreader
    have hposition : store.keys[reader.position]? = some released := by
      rw [hkeys, List.getElem?_map, htable]
      rfl
    rw [PackedView.tablesWithoutValues_of_reader hcanRelease hreader, hdescribes.blockTable_eq]
    exact Store.blocks_of_releaseValues hposition (hreleased ▸ hkey)

end Session

/-- After a store has been built, whatever calls follow, the session obeys the protocol of releases.
What can be opened on the store and what it counts depends on what its views have released. A
release changes no other view and no triangle finder, and it changes nothing at all if the view may
not release, has done so before, or has no values. Values are released for one key only. A view can
be read exactly as far as its own lineage has not released the blocks that this takes. -/
theorem releases_follow_protocol (earlier calls : List SessionCall) (name : String)
    (hallowed : Session.empty.AllowsAll (earlier ++ .build name :: calls))
    {graph : CompressedGraph}
    (hgraph : (Session.empty.performAll earlier).builder.compress = .ok graph) :
    let built := ((Session.empty.performAll earlier).perform (.build name)).2
    let session := built.performAll calls
    let protocol := (Protocol.start name).run built calls
    ∃ store charged, built.stores.lookup name = some store ∧
      charged.uncharged = graph.uncharged ∧
      (∀ n, Protocol.Relates store charged (protocol.views n) (session.views.lookup n)) ∧
      (∀ n ∈ protocol.store, session.stores.lookup n = some store ∧
        protocol.Rules store graph session.memory) ∧
      (∀ n, session.ChangesOnly (.releaseTopology n) n ∧
        session.ChangesOnly (.releaseValues n) n) ∧
      ∀ n lineage view, protocol.views n = some lineage →
        session.views.lookup n = some view →
          (lineage.canRelease = false ∨ lineage.topologyReleased = true →
            session.Ignores (.releaseTopology n)) ∧
          (lineage.canRelease = false ∨ lineage.valuesReleased = true ∨ lineage.key = none →
            session.Ignores (.releaseValues n)) ∧
          (∀ key, key ≠ lineage.key →
            store.blocks (session.perform (.releaseValues n)).2.memory key =
              store.blocks session.memory key) ∧
          lineage.Governs view := by
  intro built session protocol
  obtain ⟨hearlier, hbuild, hcalls⟩ := Session.allowsAll_append.mp hallowed
  have hstart := (Session.balanced_empty.performAll hearlier).1
  obtain ⟨store, charged, hlookup, huncharged, hkeys, hnodup, hagreesBuilt, hkeeps⟩ :=
    Protocol.exists_agrees_start hstart hbuild hgraph
  have hbuilt : built.Balanced [] := (hstart.leads hbuild).balanced
  have hbalanced : session.Balanced [] := (hbuilt.performAll hcalls).1
  have hagrees : protocol.Agrees store charged session :=
    hagreesBuilt.run hkeys hnodup hbuilt hcalls
  have horigin := hagreesBuilt.contents_eq rfl
  refine ⟨store, charged, hlookup, huncharged, hagrees.relates, fun n hn ↦ ?_, fun n ↦ ?_,
    fun n lineage view hlineage hview ↦ ?_⟩
  · have hcontents := hagrees.contents_eq (Option.isSome_iff_exists.mpr ⟨n, hn⟩)
    exact ⟨hagrees.store_eq n hn, (Protocol.rules_of_contents hkeeps hkeys hnodup horigin
      hcontents).of_uncharged huncharged⟩
  · exact ⟨hbalanced.changesOnly_releaseTopology n, hbalanced.changesOnly_releaseValues n⟩
  · have hdescribes : lineage.Describes store charged view := by
      have hrelates := hagrees.relates_of_lookup hview
      rw [hlineage] at hrelates
      exact hrelates
    refine ⟨fun h ↦ ?_, fun h ↦ ?_, fun key ↦ ?_, ?_⟩
    · apply Session.ignores_releaseTopology hview
      rw [hdescribes.canRelease_eq, hdescribes.isSome_topology_eq]
      rcases h with h | h <;> simp [h]
    · apply Session.ignores_releaseValues hview
      rw [hdescribes.canRelease_eq, hdescribes.isSome_values_eq]
      rcases h with h | h | h <;> simp [h]
    · exact hbalanced.blocks_releaseValues hkeys hview hdescribes
    · exact hdescribes.governs fun values position hoffers ↦
        Protocol.contract_opened hstart.builder_valid hkeeps hkeys hnodup horigin hoffers

/-- Calls that copy a view and release the topology by the view that was copied. -/
def releasingCalls : List SessionCall :=
  [.openView "graph" (some "weight") "view", .copy "view" "copy", .releaseTopology "view"]

theorem allowsAll_releasingCalls :
    Session.empty.AllowsAll (trackedCalls.take 3 ++ .build "graph" :: releasingCalls) := by
  have hcalls : trackedCalls =
      (trackedCalls.take 3 ++ .build "graph" :: releasingCalls) ++ [.drop "graph"] := rfl
  have hallowed := allowsAll_trackedCalls
  rw [hcalls] at hallowed
  exact (Session.allowsAll_append.mp hallowed).1

theorem run_releasingCalls :
    let built := ((Session.empty.performAll (trackedCalls.take 3)).perform (.build "graph")).2
    let protocol := (Protocol.start "graph").run built releasingCalls
    protocol.store = some "graph" ∧ protocol.topologyReleased = true ∧
      protocol.views "view" = some ⟨some "weight", true, true, false⟩ ∧
      protocol.views "copy" = some ⟨some "weight", true, false, false⟩ := by
  rw [performAll_trackedCalls]
  decide +kernel

theorem copy_keeps_released_topology :
    Session.empty.AllowsAll (trackedCalls.take 3 ++ .build "graph" :: releasingCalls) ∧
      ∃ graph, (Session.empty.performAll (trackedCalls.take 3)).builder.compress = .ok graph ∧
        let built := ((Session.empty.performAll (trackedCalls.take 3)).perform (.build "graph")).2
        let session := built.performAll releasingCalls
        ∃ store view copy, session.stores.lookup "graph" = some store ∧
          session.views.lookup "view" = some view ∧ session.views.lookup "copy" = some copy ∧
          (∀ key, ¬ ∃ opened, ((store.view key).run.run session.memory).1 = .ok opened) ∧
          (∀ node < view.nodeCount, view.Refuses node .topologyReleased) ∧
          ∀ node < copy.nodeCount, ∃ targets, copy.HandsOut node targets := by
  refine ⟨allowsAll_releasingCalls, ?_⟩
  obtain ⟨graph, hgraph⟩ : ∃ graph,
      (Session.empty.performAll (trackedCalls.take 3)).builder.compress = .ok graph := by
    have hisOk : singleArc.compress.isOk = true := by decide +kernel
    rw [performAll_trackedCalls]
    cases hcompress : singleArc.compress with
    | error error =>
      rw [hcompress] at hisOk
      exact absurd hisOk Bool.false_ne_true
    | ok graph => exact ⟨graph, rfl⟩
  obtain ⟨store, charged, _, _, hrelates, hrules, _, hviews⟩ :=
    releases_follow_protocol _ releasingCalls "graph" allowsAll_releasingCalls hgraph
  obtain ⟨hstore, hreleased, hview, hcopy⟩ := run_releasingCalls
  obtain ⟨hlookup, hopens, _⟩ := hrules "graph" hstore
  obtain ⟨view, hviewLookup⟩ := (hview ▸ hrelates "view").exists_view
  obtain ⟨copy, hcopyLookup⟩ := (hcopy ▸ hrelates "copy").exists_view
  obtain ⟨_, _, _, hviewGoverns⟩ := hviews "view" _ view hview hviewLookup
  obtain ⟨_, _, _, hcopyGoverns⟩ := hviews "copy" _ copy hcopy hcopyLookup
  refine ⟨graph, hgraph, store, view, copy, hlookup, hviewLookup, hcopyLookup, ?_, ?_, ?_⟩
  · rintro key hopened
    have hkept := ((hopens key).mp hopened).1
    rw [hreleased] at hkept
    exact absurd hkept nofun
  · exact fun node hnode ↦ (hviewGoverns.without_topology rfl node hnode).2.1
  · exact fun node hnode ↦ (hcopyGoverns.with_topology rfl node hnode).2

end PackedGraph
