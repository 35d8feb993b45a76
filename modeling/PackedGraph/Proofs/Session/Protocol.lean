import Mathlib
import PackedGraph.Proofs.Session.Steps

/-!
# The protocol of releases

What the views that are derived from a store have released, told from the calls alone. A session
agrees with it: the block table of the store lacks exactly what has been released, and every derived
view lacks exactly what it, or a view that it was copied from, had released before.
-/

namespace PackedGraph

/-! ## The graph of a store -/

namespace CompressedGraph

/-- A graph has no values without a key, and has the values of a key at a position. -/
def Offers (graph : CompressedGraph) (key : Option String) (values : Option ValueTable)
    (position : Nat) : Prop :=
  match key with
  | none => values = none ∧ position = 0
  | some key => ∃ table, values = some table ∧ graph.values[position]? = some (key, table)

theorem exists_offers_iff {graph : CompressedGraph} {key : Option String} :
    (∃ values position, graph.Offers key values position) ↔
      ∀ k ∈ key, k ∈ graph.values.map Prod.fst := by
  cases key with
  | none => exact ⟨fun _ ↦ nofun, fun _ ↦ ⟨none, 0, rfl, rfl⟩⟩
  | some key =>
    constructor
    · rintro ⟨_, position, table, _, htable⟩ k hk
      obtain rfl := Option.some.inj hk
      exact List.mem_map.mpr ⟨_, List.mem_of_getElem? htable, rfl⟩
    · intro h
      obtain ⟨entry, hentry, hkey⟩ := List.mem_map.mp (h key rfl)
      obtain ⟨position, hposition⟩ := List.mem_iff_getElem?.mp hentry
      exact ⟨some entry.2, position, entry.2, rfl, by rw [hposition, ← hkey]⟩

end CompressedGraph

/-! ## Lineages -/

/-- What is known about a view that is derived from a store: the key it was opened for, whether it
may release its data, and what has been released by it, or by a view that it was copied from before
it was copied. -/
structure Lineage where
  key : Option String
  canRelease : Bool
  topologyReleased : Bool
  valuesReleased : Bool
deriving DecidableEq

namespace Lineage

/-- A view that has just been opened. -/
def opened (key : Option String) : Lineage := ⟨key, true, false, false⟩

/-- The view would release its topology. -/
def releasesTopology (lineage : Lineage) : Bool := lineage.canRelease && !lineage.topologyReleased

/-- The key whose values the view would release. -/
def releasedKey (lineage : Lineage) : Option String :=
  if lineage.canRelease && !lineage.valuesReleased then lineage.key else none

/-- What is left of a view that was opened. -/
def strip (lineage : Lineage) (opened : PackedView) : PackedView :=
  { opened with
    topology := if lineage.topologyReleased then none else opened.topology
    values := if lineage.valuesReleased then none else opened.values
    canRelease := lineage.canRelease }

theorem strip_values (lineage : Lineage) (opened : PackedView) :
    (lineage.strip opened).values = if lineage.valuesReleased then none else opened.values := rfl

/-- A view is what was opened on the graph of a store, less what has been released, below filters
that fit. -/
structure Describes (lineage : Lineage) (store : Store) (graph : CompressedGraph) (view : View) :
    Prop where
  filtersFit : view.FiltersFit
  base_eq : ∃ values position, graph.Offers lineage.key values position ∧
    view.base.fresh = lineage.strip (store.opened graph.topology values position)
  isSome_key : lineage.valuesReleased = true → lineage.key.isSome = true

namespace Describes

variable {lineage : Lineage} {store : Store} {graph : CompressedGraph} {view other : View}

theorem opened {key : Option String} {values : Option ValueTable} {position : Nat}
    (h : graph.Offers key values position) :
    (Lineage.opened key).Describes store graph
      (.packed (store.opened graph.topology values position)) := by
  refine ⟨trivial, ⟨values, position, h, ?_⟩, nofun⟩
  cases values <;> rfl

theorem blockTable_eq (h : lineage.Describes store graph view) :
    view.base.blockTable = store.blockTable := by
  obtain ⟨_, _, _, hbase⟩ := h.base_eq
  exact congrArg PackedView.blockTable hbase

theorem canRelease_eq (h : lineage.Describes store graph view) :
    view.base.canRelease = lineage.canRelease := by
  obtain ⟨_, _, _, hbase⟩ := h.base_eq
  exact congrArg PackedView.canRelease hbase

theorem isSome_topology_eq (h : lineage.Describes store graph view) :
    view.base.topology.isSome = !lineage.topologyReleased := by
  obtain ⟨_, _, _, hbase⟩ := h.base_eq
  have htopology := congrArg (fun base ↦ base.topology.isSome) hbase
  simp only [PackedView.fresh, Option.isSome_map] at htopology
  rw [htopology]
  unfold strip
  cases lineage.topologyReleased <;> rfl

/-- The view holds values exactly if it was opened for a key and has not released them. -/
theorem isSome_values_eq (h : lineage.Describes store graph view) :
    view.base.values.isSome = (lineage.key.isSome && !lineage.valuesReleased) := by
  obtain ⟨values, position, hoffers, hbase⟩ := h.base_eq
  have hvalues := congrArg (fun base ↦ base.values.isSome) hbase
  simp only [PackedView.fresh, Option.isSome_map] at hvalues
  rw [hvalues]
  unfold strip Store.opened
  cases hkey : lineage.key with
  | none =>
    rw [hkey] at hoffers
    rw [hoffers.1]
    cases lineage.valuesReleased <;> rfl
  | some key =>
    rw [hkey] at hoffers
    obtain ⟨table, rfl, _⟩ := hoffers
    cases lineage.valuesReleased <;> rfl

/-- A view would release values exactly if it may and holds some. -/
theorem releasedKey_eq (h : lineage.Describes store graph view) :
    lineage.releasedKey =
      if view.base.canRelease && view.base.values.isSome then lineage.key else none := by
  rw [h.canRelease_eq, h.isSome_values_eq]
  unfold releasedKey
  cases lineage.canRelease <;> cases lineage.valuesReleased <;> cases lineage.key <;> rfl

/-- The values that a view holds are those of its key. -/
theorem exists_reader (h : lineage.Describes store graph view) {reader : ValueReader}
    (hreader : view.base.values = some reader) :
    ∃ key table, lineage.key = some key ∧ graph.values[reader.position]? = some (key, table) := by
  obtain ⟨values, position, hoffers, hbase⟩ := h.base_eq
  have hvalues : view.base.fresh.values = some { reader with cursor := .exhausted } := by
    unfold PackedView.fresh
    rw [hreader]
    rfl
  rw [hbase, strip_values] at hvalues
  split at hvalues
  · exact absurd hvalues nofun
  · cases hkey : lineage.key with
    | none =>
      rw [hkey] at hoffers
      rw [hoffers.1] at hvalues
      exact absurd hvalues nofun
    | some key =>
      rw [hkey] at hoffers
      obtain ⟨table, rfl, htable⟩ := hoffers
      have hposition : position = reader.position :=
        congrArg ValueReader.position (Option.some.inj hvalues)
      exact ⟨key, table, rfl, hposition ▸ htable⟩

theorem of_fresh (h : lineage.Describes store graph view) (hfresh : other.fresh = view.fresh) :
    lineage.Describes store graph other := by
  obtain ⟨values, position, hoffers, hbase⟩ := h.base_eq
  refine ⟨h.filtersFit.of_fresh hfresh, ⟨values, position, hoffers, ?_⟩, h.isSome_key⟩
  have hbases := congrArg View.base hfresh
  unfold View.fresh at hbases
  rw [View.base_mapBase, View.base_mapBase] at hbases
  exact hbases.trans hbase

theorem fresh (h : lineage.Describes store graph view) :
    lineage.Describes store graph view.fresh := h.of_fresh view.fresh_fresh

theorem of_filter (h : lineage.Describes store graph view) {labels : List String}
    (hother : view.filter labels = .ok other) : lineage.Describes store graph other := by
  obtain ⟨inner, filter, rfl, hfresh, _⟩ := View.exists_of_filter_eq hother
  exact ⟨h.filtersFit.of_filter hother, (h.of_fresh hfresh).base_eq, h.isSome_key⟩

theorem unfiltered (h : lineage.Describes store graph view) :
    lineage.Describes store graph view.unfiltered := by
  cases view with
  | packed view => exact h
  | filtered inner filter => exact ⟨h.filtersFit.1, h.base_eq, h.isSome_key⟩

/-- Changing the packed view below all filters. -/
theorem mapBase (h : lineage.Describes store graph view) {f : PackedView → PackedView}
    (hids : ∀ base, (f base).ids = base.ids) (changed : Lineage) (hkey : changed.key = lineage.key)
    (hbase : ∀ opened, view.base.fresh = lineage.strip opened →
      (f view.base).fresh = changed.strip opened)
    (hisSome : changed.valuesReleased = true → changed.key.isSome = true) :
    changed.Describes store graph (view.mapBase f) := by
  obtain ⟨values, position, hoffers, hopened⟩ := h.base_eq
  refine ⟨(View.filtersFit_mapBase_iff hids view).mpr h.filtersFit,
    ⟨values, position, hkey ▸ hoffers, ?_⟩, hisSome⟩
  rw [View.base_mapBase]
  exact hbase _ hopened

theorem setCanRelease (h : lineage.Describes store graph view) (canRelease : Bool) :
    { lineage with canRelease }.Describes store graph (view.setCanRelease canRelease) := by
  apply h.mapBase (f := fun base ↦ { base with canRelease }) (fun _ ↦ rfl)
    { lineage with canRelease } rfl _ h.isSome_key
  intro opened hopened
  exact congrArg (fun base : PackedView ↦ { base with canRelease }) hopened

theorem withoutTopology (h : lineage.Describes store graph view)
    (hreleases : lineage.canRelease = true) :
    { lineage with topologyReleased := true }.Describes store graph
      (view.mapBase PackedView.withoutTopology) := by
  have hwithout : view.base.withoutTopology = { view.base with topology := none } :=
    if_pos (h.canRelease_eq.trans hreleases)
  refine h.mapBase (fun base ↦ ?_) { lineage with topologyReleased := true } rfl
    (fun opened hopened ↦ ?_) h.isSome_key
  · unfold PackedView.withoutTopology
    split <;> rfl
  · rw [hwithout]
    exact congrArg (fun base : PackedView ↦ { base with topology := none }) hopened

theorem withoutValues (h : lineage.Describes store graph view)
    (hreleases : lineage.canRelease = true) (hkey : lineage.key.isSome = true) :
    { lineage with valuesReleased := true }.Describes store graph
      (view.mapBase PackedView.withoutValues) := by
  have hwithout : view.base.withoutValues = { view.base with values := none } :=
    if_pos (h.canRelease_eq.trans hreleases)
  refine h.mapBase (fun base ↦ ?_) { lineage with valuesReleased := true } rfl
    (fun opened hopened ↦ ?_) fun _ ↦ hkey
  · unfold PackedView.withoutValues
    split <;> rfl
  · rw [hwithout]
    exact congrArg (fun base : PackedView ↦ { base with values := none }) hopened

end Describes

end Lineage

/-! ## The protocol -/

/-- What has become of a store and of the views that are derived from it. -/
structure Protocol where
  /-- The name of the store, until it is dropped. -/
  store : Option String
  /-- The views that are derived from the store, by name. -/
  views : String → Option Lineage
  topologyReleased : Bool
  /-- The keys whose values have been released. -/
  valuesReleased : List String

namespace Protocol

/-- A store has just been built. -/
def start (name : String) : Protocol := ⟨some name, fun _ ↦ none, false, []⟩

def setView (protocol : Protocol) (name : String) (lineage : Option Lineage) : Protocol :=
  { protocol with views := Function.update protocol.views name lineage }

/-- What has a name is dropped. -/
def dropStore (protocol : Protocol) (name : String) : Protocol :=
  { protocol with store := protocol.store.filter (· != name) }

def releaseTopology (protocol : Protocol) (name : String) : Protocol :=
  match protocol.views name with
  | none => protocol
  | some lineage =>
    if lineage.releasesTopology then
      { protocol.setView name (some { lineage with topologyReleased := true }) with
        topologyReleased := true }
    else protocol

def releaseValues (protocol : Protocol) (name : String) : Protocol :=
  match protocol.views name with
  | none => protocol
  | some lineage =>
    match lineage.releasedKey with
    | none => protocol
    | some key =>
      { protocol.setView name (some { lineage with valuesReleased := true }) with
        valuesReleased := key :: protocol.valuesReleased }

variable {protocol : Protocol} {name : String} {lineage : Lineage}

theorem releaseTopology_of_not
    (h : ∀ lineage ∈ protocol.views name, lineage.releasesTopology = false) :
    protocol.releaseTopology name = protocol := by
  unfold releaseTopology
  split
  · rfl
  · next lineage hlineage => rw [h lineage hlineage, if_neg Bool.false_ne_true]

theorem releaseTopology_of_releases (h : protocol.views name = some lineage)
    (hreleases : lineage.releasesTopology = true) :
    protocol.releaseTopology name =
      { protocol.setView name (some { lineage with topologyReleased := true }) with
        topologyReleased := true } := by
  unfold releaseTopology
  rw [h]
  exact if_pos hreleases

theorem releaseValues_of_not (h : ∀ lineage ∈ protocol.views name, lineage.releasedKey = none) :
    protocol.releaseValues name = protocol := by
  unfold releaseValues
  split
  · rfl
  · next lineage hlineage => rw [h lineage hlineage]

theorem releaseValues_of_releases (h : protocol.views name = some lineage) {key : String}
    (hreleases : lineage.releasedKey = some key) :
    protocol.releaseValues name =
      { protocol.setView name (some { lineage with valuesReleased := true }) with
        valuesReleased := key :: protocol.valuesReleased } := by
  unfold releaseValues
  rw [h]
  simp only [hreleases]

/-- The protocol after a call that has succeeded or failed. -/
def step (protocol : Protocol) (call : SessionCall) (hasSucceeded : Bool) : Protocol :=
  match call, hasSucceeded with
  | .build name, true => protocol.dropStore name
  | .openView name key as, true =>
    protocol.setView as (if protocol.store = some name then some (.opened key) else none)
  | .copy name as, true => protocol.setView as (protocol.views name)
  | .filter name _ as, true => (protocol.setView name none).setView as (protocol.views name)
  | .filter name _ _, false => protocol.setView name none
  | .unfilter name as, true => (protocol.setView name none).setView as (protocol.views name)
  | .setCanRelease name canRelease, true =>
    protocol.setView name ((protocol.views name).map fun lineage ↦ { lineage with canRelease })
  | .releaseTopology name, true => protocol.releaseTopology name
  | .releaseValues name, true => protocol.releaseValues name
  | .drop name, _ => (protocol.dropStore name).setView name none
  | _, _ => protocol

/-- The protocol after some calls of a session. -/
def run (protocol : Protocol) (session : Session) : List SessionCall → Protocol
  | [] => protocol
  | call :: calls =>
    (protocol.step call (session.perform call).1.isOk).run (session.perform call).2 calls

/-- What is left in the block table of a store of a graph. -/
def remaining (protocol : Protocol) (graph : CompressedGraph) :
    Option Topology × Array (Option ValueTable) :=
  (if protocol.topologyReleased then none else some graph.topology,
    (graph.values.map fun entry ↦
      if entry.1 ∈ protocol.valuesReleased then none else some entry.2).toArray)

/-- Releasing the values of a key empties their place. -/
theorem remaining_releaseValues {graph : CompressedGraph}
    (hnodup : (graph.values.map Prod.fst).Nodup) {position : Nat} {key : String}
    {table : ValueTable} (htable : graph.values[position]? = some (key, table))
    (protocol : Protocol) (name : String) (lineage : Option Lineage) :
    remaining { protocol.setView name lineage with
        valuesReleased := key :: protocol.valuesReleased } graph =
      ((protocol.remaining graph).1, (protocol.remaining graph).2.setIfInBounds position none) := by
  have hvalues : (graph.values.map fun entry ↦
      if entry.1 ∈ key :: protocol.valuesReleased then none else some entry.2) =
        (graph.values.map fun entry ↦
          if entry.1 ∈ protocol.valuesReleased then none else some entry.2).set position none := by
    apply List.ext_getElem?
    intro i
    rw [List.getElem?_set, List.getElem?_map, List.getElem?_map, List.length_map]
    by_cases hi : position = i
    · subst hi
      have hlt := (List.getElem?_eq_some_iff.mp htable).1
      rw [if_pos rfl, if_pos hlt, htable, Option.map_some, if_pos List.mem_cons_self]
    · rw [if_neg hi]
      cases hentry : graph.values[i]? with
      | none => rfl
      | some entry =>
        have hne : entry.1 ≠ key := by
          rintro rfl
          have hkeys : (graph.values.map Prod.fst)[position]? =
              (graph.values.map Prod.fst)[i]? := by
            rw [List.getElem?_map, List.getElem?_map, htable, hentry]
            rfl
          have hlt := (List.getElem?_eq_some_iff.mp htable).1
          rw [← List.length_map (f := Prod.fst)] at hlt
          exact hi ((List.getElem?_inj hlt hnodup).mp hkeys)
        rw [Option.map_some, Option.map_some]
        simp only [List.mem_cons, hne, false_or]
  unfold remaining setView
  rw [hvalues, List.setIfInBounds_toArray]

theorem findIdx?_beq_eq_some_iff {keys : List String} (hnodup : keys.Nodup) {key : String}
    {position : Nat} : keys.findIdx? (· == key) = some position ↔ keys[position]? = some key := by
  rw [List.findIdx?_eq_some_iff_getElem]
  constructor
  · rintro ⟨hlt, hkey, _⟩
    rw [List.getElem?_eq_getElem hlt, eq_of_beq hkey]
  · intro hkey
    obtain ⟨hlt, hget⟩ := List.getElem?_eq_some_iff.mp hkey
    refine ⟨hlt, beq_iff_eq.mpr hget, fun i hi hbeq ↦ hi.ne ?_⟩
    exact (List.Nodup.getElem_inj_iff hnodup).mp ((eq_of_beq hbeq).trans hget.symm)

/-- A store of a graph finds the blocks that have not been released. -/
theorem blocks_eq_ok_iff {graph : CompressedGraph} {store : Store} {memory : Memory}
    (hkeys : store.keys = graph.values.map Prod.fst) (hnodup : store.keys.Nodup)
    (hcontents : memory.contents store.blockTable = some (protocol.remaining graph))
    {key : Option String} {topology : Topology} {values : Option ValueTable} {position : Nat} :
    store.blocks memory key = .ok (topology, values, position) ↔
      protocol.topologyReleased = false ∧ topology = graph.topology ∧
        graph.Offers key values position ∧ ∀ k ∈ key, k ∉ protocol.valuesReleased := by
  obtain ⟨table, htable, hleft⟩ := Option.map_eq_some_iff.mp hcontents
  obtain ⟨htopology, hvalues⟩ := Prod.mk.inj hleft
  rw [Store.blocks_eq_ok_iff, htable]
  simp only [Option.some.injEq, exists_eq_left']
  have hfirst : table.topology = some topology ↔
      protocol.topologyReleased = false ∧ topology = graph.topology := by
    rw [htopology]
    cases protocol.topologyReleased <;> simp [eq_comm]
  rw [hfirst, and_assoc]
  refine and_congr_right fun _ ↦ and_congr_right fun _ ↦ ?_
  cases key with
  | none => simp [CompressedGraph.Offers]
  | some key =>
    have hposition : store.keys.findIdx? (· == key) = some position ↔
        graph.values[position]?.map Prod.fst = some key := by
      rw [findIdx?_beq_eq_some_iff hnodup, hkeys, List.getElem?_map]
    have hplace : table.values[position]? = graph.values[position]?.map fun entry ↦
        if entry.1 ∈ protocol.valuesReleased then none else some entry.2 := by
      rw [hvalues, List.getElem?_toArray, List.getElem?_map]
    constructor
    · rintro ⟨hfind, stored, rfl, hstored⟩
      obtain ⟨entry, hentry, rfl⟩ := Option.map_eq_some_iff.mp (hposition.mp hfind)
      rw [hplace, hentry, Option.map_some, Option.some.injEq] at hstored
      split_ifs at hstored with hmem
      obtain rfl := Option.some.inj hstored
      refine ⟨⟨entry.2, rfl, hentry⟩, fun k hk ↦ ?_⟩
      rw [← Option.some.inj hk]
      exact hmem
    · rintro ⟨⟨stored, rfl, hentry⟩, hkept⟩
      refine ⟨hposition.mpr (by rw [hentry]; rfl), stored, rfl, ?_⟩
      rw [hplace, hentry, Option.map_some, if_neg (hkept key rfl)]

end Protocol

end PackedGraph
