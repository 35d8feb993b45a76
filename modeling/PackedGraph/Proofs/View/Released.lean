import PackedGraph.Proofs.View.Selection

/-!
# Views that lack blocks

A view that lacks its topology, or its values, ends every enumeration that needs them in a fault,
however often it has been filtered, and succeeds in every other. This rests on the tables of the
filters alone, which fit the views below them from the start.
-/

namespace PackedGraph

variable {ε α : Type}

theorem sublist_of_filterM_eq_ok {f : α → Except ε Bool} {l kept : List α}
    (h : l.filterM f = .ok kept) : kept.Sublist l := by
  have haux (l seen all : List α) (h : l.filterAuxM f seen = .ok all) :
      ∃ passed : List α, passed.Sublist l ∧ all = passed.reverse ++ seen := by
    induction l generalizing seen with
    | nil => exact ⟨[], .slnil, (Except.ok.inj h).symm⟩
    | cons a l ih =>
      rw [List.filterAuxM] at h
      cases ha : f a with
      | error error =>
        rw [ha] at h
        cases h
      | ok passes =>
        rw [ha] at h
        obtain ⟨passed, hpassed, hall⟩ := ih _ h
        cases passes with
        | true => exact ⟨a :: passed, hpassed.cons_cons a, by simpa using hall⟩
        | false => exact ⟨passed, hpassed.cons a, hall⟩
  cases hall : l.filterAuxM f [] with
  | error error =>
    rw [List.filterM, hall] at h
    cases h
  | ok all =>
    rw [List.filterM, hall] at h
    obtain ⟨passed, hpassed, rfl⟩ := haux l [] all hall
    have hkept : ((passed.reverse ++ []).reverse) = kept := Except.ok.inj h
    rw [List.append_nil, List.reverse_reverse] at hkept
    exact hkept ▸ hpassed

/-! ## Filters -/

/-- The tables of a filter belong to the nodes of the view below it. -/
structure Filter.Fits (filter : Filter) (inner : View) : Prop where
  root_lt : ∀ node root, filter.root node = .ok root → root < inner.nodeCount
  size_toFiltered : filter.toFiltered.size = inner.nodeCount
  filtered_lt : ∀ target node, filter.filtered target = .ok (some node) →
    node < filter.toRoot.size
  size_degrees : filter.degrees.size = filter.toRoot.size

theorem Filter.exists_root {filter : Filter} {node : Nat} (h : node < filter.toRoot.size) :
    ∃ root, filter.root node = .ok root :=
  ⟨filter.toRoot[node], root_eq_ok_iff.mpr (Array.getElem?_eq_getElem h)⟩

theorem Filter.Fits.filtered_eq {filter : Filter} {inner : View} (h : filter.Fits inner)
    {target : Nat} (hlt : target < inner.nodeCount) :
    filter.filtered target = .ok filter.toFiltered[target]?.join := by
  rw [filtered_eq_ok_iff, Array.getElem?_eq_getElem (h.size_toFiltered ▸ hlt)]
  rfl

namespace View

/-- The tables of every filter of a view fit. -/
def FiltersFit : View → Prop
  | packed _ => True
  | filtered inner filter => inner.FiltersFit ∧ filter.Fits inner

theorem nodeCount_mapBase {f : PackedView → PackedView} (hf : ∀ base, (f base).ids = base.ids)
    (view : View) : (view.mapBase f).nodeCount = view.nodeCount := by
  cases view with
  | packed view => exact congrArg IdMap.nodeCount (hf view)
  | filtered inner filter => rfl

/-- Whether the filters fit does not depend on the blocks below them. -/
theorem filtersFit_mapBase_iff {f : PackedView → PackedView}
    (hf : ∀ base, (f base).ids = base.ids) (view : View) :
    (view.mapBase f).FiltersFit ↔ view.FiltersFit := by
  induction view with
  | packed view => rfl
  | filtered inner filter ih =>
    have hcount := nodeCount_mapBase hf inner
    refine and_congr ih ⟨fun h ↦ ?_, fun h ↦ ?_⟩
    · exact ⟨hcount ▸ h.root_lt, hcount ▸ h.size_toFiltered, h.filtered_lt, h.size_degrees⟩
    · exact ⟨hcount.symm ▸ h.root_lt, hcount.symm ▸ h.size_toFiltered, h.filtered_lt,
        h.size_degrees⟩

theorem FiltersFit.of_fresh {view other : View} (h : view.FiltersFit)
    (hfresh : other.fresh = view.fresh) : other.FiltersFit := by
  have hids (base : PackedView) : base.fresh.ids = base.ids := rfl
  rw [← filtersFit_mapBase_iff hids]
  unfold fresh at hfresh
  rw [hfresh, filtersFit_mapBase_iff hids]
  exact h

theorem of_keptDegrees {toFiltered : Array (Option Nat)} {nodes : List Nat} {view : View}
    {kept : View × List Nat} (h : view.keptDegrees toFiltered nodes = .ok kept) :
    kept.1.fresh = view.fresh ∧ kept.2.length = nodes.length := by
  induction nodes generalizing view kept with
  | nil => rw [← Except.ok.inj h]; exact ⟨rfl, rfl⟩
  | cons node nodes ih =>
    rw [keptDegrees] at h
    generalize hvisit : view.visit node _ 0 = visit at h
    have hfresh : visit.reader.fresh = view.fresh := hvisit ▸ view.reader_visit_fresh node _ 0
    obtain ⟨degree, _, hnext⟩ := exists_of_bind_eq_ok h
    obtain ⟨rest, hrest, hkept⟩ := exists_of_bind_eq_ok hnext
    obtain ⟨hrestFresh, hlength⟩ := ih hrest
    rw [← Except.ok.inj hkept]
    exact ⟨hrestFresh.trans hfresh, congrArg (· + 1) hlength⟩

/-- What is found in the table of positions is the position of some node. -/
theorem lt_length_of_getElem?_positions {nodes : List Nat} (hnodup : nodes.Nodup)
    {size target node : Nat} (h : (positions nodes size)[target]? = some (some node)) :
    node < nodes.length := by
  have htarget := (Array.getElem?_eq_some_iff.mp h).1
  rw [size_positions hnodup] at htarget
  obtain ⟨kept, hkept, hiff⟩ := getElem?_positions hnodup htarget
  obtain rfl : some node = kept := Option.some.inj (h.symm.trans hkept)
  exact (List.getElem?_eq_some_iff.mp ((hiff node).mp rfl)).1

/-- A filter keeps the view that it was made from, but for cursors, and fits it. -/
theorem exists_of_filter_eq {view result : View} {labels : List String}
    (h : view.filter labels = .ok result) :
    ∃ inner filter, result = .filtered inner filter ∧ inner.fresh = view.fresh ∧
      filter.Fits inner ∧ inner.selectColumns filter.toRoot = .ok filter.columns := by
  unfold filter at h
  split at h
  · exact absurd h nofun
  obtain ⟨roots, hroots, hrest⟩ := exists_of_bind_eq_ok h
  obtain ⟨⟨inner, degrees⟩, hdegrees, hlast⟩ := exists_of_bind_eq_ok hrest
  obtain ⟨columns, hcolumns, hresult⟩ := exists_of_bind_eq_ok hlast
  replace hroots := sublist_of_filterM_eq_ok (eq_ok_of_mapError_eq_ok hroots)
  have hnodup := List.nodup_range.sublist hroots
  obtain ⟨hfresh, hlength⟩ := of_keptDegrees (eq_ok_of_mapError_eq_ok hdegrees)
  have hcount : inner.nodeCount = view.nodeCount := (SameData.of_fresh hfresh).nodeCount_eq
  refine ⟨inner, _, (Except.ok.inj hresult).symm, hfresh, ?_, eq_ok_of_mapError_eq_ok hcolumns⟩
  constructor
  case root_lt =>
    intro node root hroot
    rw [Filter.root_eq_ok_iff, List.getElem?_toArray] at hroot
    rw [hcount]
    exact List.mem_range.mp (hroots.subset (List.mem_of_getElem? hroot))
  case size_toFiltered =>
    rw [hcount]
    exact size_positions hnodup _
  case filtered_lt =>
    intro target node hfiltered
    exact lt_length_of_getElem?_positions hnodup (Filter.filtered_eq_ok_iff.mp hfiltered)
  case size_degrees => exact hlength

theorem FiltersFit.of_filter {view result : View} {labels : List String} (h : view.FiltersFit)
    (hresult : view.filter labels = .ok result) : result.FiltersFit := by
  obtain ⟨inner, filter, rfl, hfresh, hfits, _⟩ := exists_of_filter_eq hresult
  exact ⟨h.of_fresh hfresh, hfits⟩

/-! ## Enumerations -/

variable {view : View} {node : Nat}

/-- Every visit of a node ends in a fault before anything is handed out. -/
def Refuses (view : View) (node : Nat) (fault : Fault) : Prop :=
  ∀ used : View, used.fresh = view.fresh →
    ∀ (σ : Type) (consume : σ → Nat → Response σ) (state : σ),
      (used.visit node consume state).ended = (state, .error (.fault fault))

/-- The same for a visit that hands out every target with its value. -/
def RefusesValues (view : View) (node : Nat) (fallback : ValueBits) (fault : Fault) : Prop :=
  ∀ used : View, used.fresh = view.fresh →
    ∀ (σ : Type) (consume : σ → Nat → ValueBits → Response σ) (state : σ),
      (used.visitWithValues node fallback consume state).ended = (state, .error (.fault fault))

theorem refuses_of_reading {fault : Fault} (h : view.reading node = .fail (.fault fault)) :
    view.Refuses node fault := by
  intro used hused σ consume state
  rw [used.ended_visit, reading_congr hused, h]
  rfl

theorem refusesValues_of_valueReading {fault : Fault} {fallback : ValueBits}
    (h : view.valueReading node fallback = .fail (.fault fault)) :
    view.RefusesValues node fallback fault := by
  intro used hused σ consume state
  rw [used.ended_visitWithValues, valueReading_congr hused, h]
  rfl

theorem degree_eq_error (h : view.base.topology = none) (node : Nat) :
    view.degree node = .error .topologyReleased := by
  cases view with
  | packed view =>
    have htopology : view.topology = none := h
    rw [degree, htopology]
  | filtered inner filter =>
    have htopology : inner.base.topology = none := h
    rw [degree, hasTopology, htopology]
    rfl

namespace FiltersFit

/-- If the packed view fails on all nodes, so does every view above it. -/
theorem reading_eq_fail (h : view.FiltersFit) {error : ReadError}
    (hbase : ∀ node < view.base.ids.nodeCount, view.base.reading node = .fail error)
    (hnode : node < view.nodeCount) : view.reading node = .fail error := by
  induction view generalizing node with
  | packed view => exact hbase node hnode
  | filtered inner filter ih =>
    obtain ⟨root, hroot⟩ := Filter.exists_root hnode
    have hinner := ih h.1 hbase (h.2.root_lt node root hroot)
    simp only [reading, hroot, hinner]
    rfl

theorem valueReading_eq_fail (h : view.FiltersFit) {error : ReadError} {fallback : ValueBits}
    (hbase : ∀ node < view.base.ids.nodeCount, view.base.valueReading node fallback = .fail error)
    (hnode : node < view.nodeCount) : view.valueReading node fallback = .fail error := by
  induction view generalizing node with
  | packed view => exact hbase node hnode
  | filtered inner filter ih =>
    obtain ⟨root, hroot⟩ := Filter.exists_root hnode
    have hinner := ih h.1 hbase (h.2.root_lt node root hroot)
    simp only [valueReading, hroot, hinner]
    rfl

/-- If the packed view hands out nodes that it has, so does every view above it. -/
theorem exists_reading_eq (h : view.FiltersFit)
    (hbase : ∀ node < view.base.ids.nodeCount, ∃ targets,
      view.base.reading node = ⟨targets, .ok ()⟩ ∧ ∀ t ∈ targets, t < view.base.ids.nodeCount)
    (hnode : node < view.nodeCount) :
    ∃ targets, view.reading node = ⟨targets, .ok ()⟩ ∧ ∀ t ∈ targets, t < view.nodeCount := by
  induction view generalizing node with
  | packed view => exact hbase node hnode
  | filtered inner filter ih =>
    obtain ⟨root, hroot⟩ := Filter.exists_root hnode
    obtain ⟨targets, hreading, hlt⟩ := ih h.1 hbase (h.2.root_lt node root hroot)
    have hkept : ∀ target ∈ targets,
        filter.filtered target = .ok (filter.toFiltered[target]?.join) :=
      fun target htarget ↦ h.2.filtered_eq (hlt target htarget)
    refine ⟨targets.filterMap (filter.toFiltered[·]?.join), ?_, fun target htarget ↦ ?_⟩
    · simp only [reading, hroot, hreading]
      exact Reading.pick_eq hkept _
    · obtain ⟨other, hother, hpassed⟩ := List.mem_filterMap.mp htarget
      exact h.2.filtered_lt other target ((hkept other hother).trans (congrArg _ hpassed))

theorem exists_valueReading_eq (h : view.FiltersFit) {fallback : ValueBits}
    (hbase : ∀ node < view.base.ids.nodeCount, ∃ pairs,
      view.base.valueReading node fallback = ⟨pairs, .ok ()⟩ ∧
        ∀ pair ∈ pairs, pair.1 < view.base.ids.nodeCount)
    (hnode : node < view.nodeCount) :
    ∃ pairs, view.valueReading node fallback = ⟨pairs, .ok ()⟩ ∧
      ∀ pair ∈ pairs, pair.1 < view.nodeCount := by
  induction view generalizing node with
  | packed view => exact hbase node hnode
  | filtered inner filter ih =>
    obtain ⟨root, hroot⟩ := Filter.exists_root hnode
    obtain ⟨pairs, hreading, hlt⟩ := ih h.1 hbase (h.2.root_lt node root hroot)
    have hkept : ∀ pair ∈ pairs,
        filter.filtered pair.1 = .ok (filter.toFiltered[pair.1]?.join) :=
      fun pair hpair ↦ h.2.filtered_eq (hlt pair hpair)
    refine ⟨pairs.filterMap fun pair ↦
      filter.toFiltered[pair.1]?.join.map fun target ↦ (target, pair.2), ?_, fun pair hpair ↦ ?_⟩
    · simp only [valueReading, hroot, hreading]
      exact Reading.pick_eq (fun pair hpair ↦ by rw [hkept pair hpair]; rfl) _
    · obtain ⟨other, hother, hpassed⟩ := List.mem_filterMap.mp hpair
      obtain ⟨target, htarget, rfl⟩ := Option.map_eq_some_iff.mp hpassed
      exact h.2.filtered_lt other.1 target ((hkept other hother).trans (congrArg _ htarget))

theorem exists_degree_eq (h : view.FiltersFit) (htopology : view.base.topology.isSome)
    (hbase : ∀ node < view.base.ids.nodeCount, ∃ degree,
      (packed view.base).degree node = .ok degree)
    (hnode : node < view.nodeCount) : ∃ degree, view.degree node = .ok degree := by
  cases view with
  | packed view => exact hbase node hnode
  | filtered inner filter =>
    have hinner : inner.hasTopology = true := htopology
    have hlt : node < filter.degrees.size := h.2.size_degrees.symm ▸ hnode
    exact ⟨filter.degrees[node], by rw [degree, if_pos hinner, Array.getElem?_eq_getElem hlt]⟩

end FiltersFit

end View

end PackedGraph
