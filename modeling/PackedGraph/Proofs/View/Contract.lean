import PackedGraph.Proofs.View.Reading
import PackedGraph.Store.Holding

/-!
# What readers rely on

The contract of a view says what its readers may rely on. Every enumeration hands out the list of
its node to any consumer, the lists are sorted, the degrees count them, and nodes and original ids
belong together. Views with the same data keep the same contract.
-/

namespace PackedGraph

variable {α β : Type}

namespace Reading

/-- A reading is known by what it feeds to a consumer. -/
theorem eq_of_feed {reading other : Reading α}
    (h : ∀ (σ : Type) (consume : σ → α → Response σ) (state : σ),
      reading.feed consume state = other.feed consume state) : reading = other := by
  have hcollect := h (List α) (fun seen element ↦ .more (element :: seen)) []
  rw [reading.feed_of_more fun _ _ _ ↦ rfl, other.feed_of_more fun _ _ _ ↦ rfl,
    Prod.mk.injEq, List.foldl_flip_cons_eq_append', List.foldl_flip_cons_eq_append',
    List.append_nil, List.append_nil, List.reverse_inj] at hcollect
  obtain ⟨helements, hending⟩ := hcollect
  cases reading
  cases other
  rw [mk.injEq]
  exact ⟨helements, hending⟩

/-- Picking from a reading that does not fail. -/
theorem pick_eq {select : α → Except Fault (Option β)} {f : α → Option β} {elements : List α}
    (h : ∀ element ∈ elements, select element = .ok (f element)) (ending : Except ReadError Unit) :
    Reading.pick select ⟨elements, ending⟩ = ⟨elements.filterMap f, ending⟩ := by
  unfold pick
  induction elements with
  | nil => rfl
  | cons element elements ih =>
    obtain ⟨helement, helements⟩ := List.forall_mem_cons.mp h
    rw [pickFrom, helement]
    cases hpicked : f element with
    | none => rw [List.filterMap_cons_none hpicked, ih helements]
    | some picked =>
      rw [List.filterMap_cons_some hpicked, ih helements]
      rfl

end Reading

/-! ## Views with the same data -/

/-- Two packed views differ at most in their cursors, in the permission to release, and in the
block table. -/
structure PackedView.SameData (view other : PackedView) : Prop where
  ids_eq : view.ids = other.ids
  columns_eq : view.columns = other.columns
  topology_eq : view.topology.map TopologyReader.topology =
    other.topology.map TopologyReader.topology
  values_eq : view.values.map ValueReader.table = other.values.map ValueReader.table
  relationshipCount_eq : view.relationshipCount = other.relationshipCount
  isUndirected_eq : view.isUndirected = other.isUndirected
  hasValues_eq : view.hasValues = other.hasValues

namespace PackedView.SameData

variable {view other third : PackedView}

theorem refl (view : PackedView) : view.SameData view := ⟨rfl, rfl, rfl, rfl, rfl, rfl, rfl⟩

theorem symm (h : view.SameData other) : other.SameData view where
  ids_eq := h.ids_eq.symm
  columns_eq := h.columns_eq.symm
  topology_eq := h.topology_eq.symm
  values_eq := h.values_eq.symm
  relationshipCount_eq := h.relationshipCount_eq.symm
  isUndirected_eq := h.isUndirected_eq.symm
  hasValues_eq := h.hasValues_eq.symm

theorem trans (h : view.SameData other) (h' : other.SameData third) : view.SameData third where
  ids_eq := h.ids_eq.trans h'.ids_eq
  columns_eq := h.columns_eq.trans h'.columns_eq
  topology_eq := h.topology_eq.trans h'.topology_eq
  values_eq := h.values_eq.trans h'.values_eq
  relationshipCount_eq := h.relationshipCount_eq.trans h'.relationshipCount_eq
  isUndirected_eq := h.isUndirected_eq.trans h'.isUndirected_eq
  hasValues_eq := h.hasValues_eq.trans h'.hasValues_eq

theorem fresh (view : PackedView) : view.fresh.SameData view where
  ids_eq := rfl
  columns_eq := rfl
  topology_eq := by rw [PackedView.fresh, Option.map_map]; rfl
  values_eq := by rw [PackedView.fresh, Option.map_map]; rfl
  relationshipCount_eq := rfl
  isUndirected_eq := rfl
  hasValues_eq := rfl

theorem reading_eq (h : view.SameData other) (node : Nat) :
    view.reading node = other.reading node := by
  have htopology (view : PackedView) : view.reading node =
      (view.topology.map TopologyReader.topology).elim (.fail (.fault .topologyReleased))
        (·.reading node) := by
    rw [reading]
    cases view.topology <;> rfl
  rw [htopology, h.topology_eq, ← htopology]

theorem valueReading_eq (h : view.SameData other) (node : Nat) (fallback : ValueBits) :
    view.valueReading node fallback = other.valueReading node fallback := by
  have htopology := h.topology_eq
  have hvalues := h.values_eq
  rw [valueReading, valueReading, h.hasValues_eq, h.reading_eq]
  cases hview : view.topology <;> cases hother : other.topology <;>
    cases hread : view.values <;> cases hreader : other.values <;>
      simp only [hview, hother, hread, hreader, Option.map_some, Option.map_none, Option.some.injEq,
        reduceCtorEq] at htopology hvalues
  all_goals simp only [htopology, hvalues]

theorem degree_eq (h : view.SameData other) (node : Nat) :
    (View.packed view).degree node = (View.packed other).degree node := by
  have htopology (view : PackedView) : (View.packed view).degree node =
      (view.topology.map TopologyReader.topology).elim (.error .topologyReleased)
        (·.index.degree node) := by
    rw [View.degree]
    cases view.topology <;> rfl
  rw [htopology, h.topology_eq, ← htopology]

theorem isSome_topology_eq (h : view.SameData other) :
    view.topology.isSome = other.topology.isSome := by
  rw [← Option.isSome_map, h.topology_eq, Option.isSome_map]

end PackedView.SameData

namespace View

/-- Two views show the same part of the same data. -/
def SameData : View → View → Prop
  | packed view, packed other => view.SameData other
  | filtered inner filter, filtered other filter' => inner.SameData other ∧ filter = filter'
  | _, _ => False

namespace SameData

variable {view other third : View} {node : Nat}

theorem refl (view : View) : view.SameData view := by
  induction view with
  | packed view => exact PackedView.SameData.refl view
  | filtered inner filter ih => exact ⟨ih, rfl⟩

theorem symm (h : view.SameData other) : other.SameData view := by
  induction view generalizing other with
  | packed view =>
    cases other with
    | packed other => exact PackedView.SameData.symm h
    | filtered _ _ => exact h.elim
  | filtered inner filter ih =>
    cases other with
    | packed _ => exact h.elim
    | filtered other _ => exact ⟨ih h.1, h.2.symm⟩

theorem trans (h : view.SameData other) (h' : other.SameData third) : view.SameData third := by
  induction view generalizing other third with
  | packed view =>
    cases other with
    | filtered _ _ => exact h.elim
    | packed other =>
      cases third with
      | packed third => exact PackedView.SameData.trans h h'
      | filtered _ _ => exact h'.elim
  | filtered inner filter ih =>
    cases other with
    | packed _ => exact h.elim
    | filtered other _ =>
      cases third with
      | packed _ => exact h'.elim
      | filtered third _ => exact ⟨ih h.1 h'.1, h.2.trans h'.2⟩

/-- Changing the packed view below all filters to one with the same data. -/
theorem mapBase {f : PackedView → PackedView} (hf : ∀ base, (f base).SameData base)
    (view : View) : (view.mapBase f).SameData view := by
  induction view with
  | packed view => exact hf view
  | filtered inner filter ih => exact ⟨ih, rfl⟩

theorem fresh (view : View) : view.fresh.SameData view := mapBase PackedView.SameData.fresh view

theorem of_fresh (h : view.fresh = other.fresh) : view.SameData other :=
  (fresh view).symm.trans (h ▸ fresh other)

theorem base (h : view.SameData other) : view.base.SameData other.base := by
  induction view generalizing other with
  | packed view =>
    cases other with
    | packed _ => exact h
    | filtered _ _ => exact h.elim
  | filtered inner filter ih =>
    cases other with
    | packed _ => exact h.elim
    | filtered other _ =>
      have hinner := ih h.1
      exact hinner

theorem nodeCount_eq (h : view.SameData other) : view.nodeCount = other.nodeCount := by
  cases view <;> cases other
  · exact congrArg IdMap.nodeCount h.ids_eq
  · exact h.elim
  · exact h.elim
  · exact congrArg (·.toRoot.size) h.2

theorem relationshipCount_eq (h : view.SameData other) :
    view.relationshipCount = other.relationshipCount := by
  cases view <;> cases other
  · exact PackedView.SameData.relationshipCount_eq h
  · exact h.elim
  · exact h.elim
  · exact congrArg Filter.relationshipCount h.2

theorem columns_eq (h : view.SameData other) : view.columns = other.columns := by
  cases view <;> cases other
  · exact PackedView.SameData.columns_eq h
  · exact h.elim
  · exact h.elim
  · exact congrArg Filter.columns h.2

theorem hasTopology_eq (h : view.SameData other) : view.hasTopology = other.hasTopology :=
  h.base.isSome_topology_eq

theorem degree_eq (h : view.SameData other) (node : Nat) :
    view.degree node = other.degree node := by
  cases view <;> cases other
  · exact PackedView.SameData.degree_eq h node
  · exact h.elim
  · exact h.elim
  · obtain ⟨hinner, rfl⟩ := h
    rw [degree, degree, hinner.hasTopology_eq]

theorem node?_eq (h : view.SameData other) (original : UInt64) :
    view.node? original = other.node? original := by
  induction view generalizing other with
  | packed view =>
    cases other with
    | packed _ => exact congrArg (IdMap.node? · original) h.ids_eq
    | filtered _ _ => exact h.elim
  | filtered inner filter ih =>
    cases other with
    | packed _ => exact h.elim
    | filtered other _ =>
      obtain ⟨hinner, rfl⟩ := h
      rw [node?, node?, ih hinner]

theorem original_eq (h : view.SameData other) (node : Nat) :
    view.original node = other.original node := by
  induction view generalizing other node with
  | packed view =>
    cases other with
    | packed _ => exact congrArg (IdMap.original · node) h.ids_eq
    | filtered _ _ => exact h.elim
  | filtered inner filter ih =>
    cases other with
    | packed _ => exact h.elim
    | filtered other _ =>
      obtain ⟨hinner, rfl⟩ := h
      simp only [original, ih hinner]

theorem hasLabel_eq (h : view.SameData other) (node : Nat) (label : String) :
    view.hasLabel node label = other.hasLabel node label := by
  induction view generalizing other node with
  | packed view =>
    cases other with
    | packed _ => exact congrArg (fun ids : IdMap ↦ Except.ok (ids.hasLabel node label)) h.ids_eq
    | filtered _ _ => exact h.elim
  | filtered inner filter ih =>
    cases other with
    | packed _ => exact h.elim
    | filtered other _ =>
      obtain ⟨hinner, rfl⟩ := h
      simp only [hasLabel, ih hinner]

theorem reading_eq (h : view.SameData other) (node : Nat) :
    view.reading node = other.reading node := by
  induction view generalizing other node with
  | packed view =>
    cases other with
    | packed _ => exact PackedView.SameData.reading_eq h node
    | filtered _ _ => exact h.elim
  | filtered inner filter ih =>
    cases other with
    | packed _ => exact h.elim
    | filtered other _ =>
      obtain ⟨hinner, rfl⟩ := h
      simp only [reading, ih hinner]

theorem valueReading_eq (h : view.SameData other) (node : Nat) (fallback : ValueBits) :
    view.valueReading node fallback = other.valueReading node fallback := by
  induction view generalizing other node with
  | packed view =>
    cases other with
    | packed _ => exact PackedView.SameData.valueReading_eq h node fallback
    | filtered _ _ => exact h.elim
  | filtered inner filter ih =>
    cases other with
    | packed _ => exact h.elim
    | filtered other _ =>
      obtain ⟨hinner, rfl⟩ := h
      simp only [valueReading, ih hinner]

end SameData

/-! ## The contract -/

/-- Wherever the cursors of a view have been left, a visit of a node hands a list of targets to
every consumer until it has had enough, and changes nothing but cursors. -/
def HandsOut (view : View) (node : Nat) (targets : List Nat) : Prop :=
  ∀ used : View, used.fresh = view.fresh →
    ∀ (σ : Type) (consume : σ → Nat → Response σ) (state : σ),
      let visit := used.visit node consume state
      visit.ended = Reading.feed ⟨targets, .ok ()⟩ consume state ∧ visit.reader.fresh = view.fresh

/-- The same for a visit that hands out every target with its value. -/
def HandsOutValues (view : View) (node : Nat) (fallback : ValueBits)
    (pairs : List (Nat × ValueBits)) : Prop :=
  ∀ used : View, used.fresh = view.fresh →
    ∀ (σ : Type) (consume : σ → Nat → ValueBits → Response σ) (state : σ),
      let visit := used.visitWithValues node fallback consume state
      visit.ended = Reading.feed ⟨pairs, .ok ()⟩ (fun state pair ↦ consume state pair.1 pair.2)
        state ∧ visit.reader.fresh = view.fresh

theorem handsOut_iff {view : View} {node : Nat} {targets : List Nat} :
    view.HandsOut node targets ↔ view.reading node = ⟨targets, .ok ()⟩ := by
  constructor
  · intro h
    apply Reading.eq_of_feed
    intro σ consume state
    rw [← view.ended_visit, (h view rfl σ consume state).1]
  · intro h used hused σ consume state
    refine ⟨?_, (used.reader_visit_fresh node consume state).trans hused⟩
    rw [used.ended_visit, reading_congr hused, h]

theorem handsOutValues_iff {view : View} {node : Nat} {fallback : ValueBits}
    {pairs : List (Nat × ValueBits)} :
    view.HandsOutValues node fallback pairs ↔
      view.valueReading node fallback = ⟨pairs, .ok ()⟩ := by
  constructor
  · intro h
    apply Reading.eq_of_feed
    intro σ consume state
    have hfeed := (h view rfl σ (fun state target value ↦ consume state (target, value)) state).1
    rw [view.ended_visitWithValues] at hfeed
    exact hfeed
  · intro h used hused σ consume state
    refine ⟨?_, (used.reader_visitWithValues_fresh node fallback consume state).trans hused⟩
    rw [used.ended_visitWithValues, valueReading_congr hused, h]

/-- What every reader of a view relies on. -/
structure Contract (view : View) : Prop where
  handsOut : ∀ node < view.nodeCount, view.HandsOut node (view.targets node)
  handsOutValues : ∀ node < view.nodeCount, ∀ fallback,
    view.HandsOutValues node fallback (view.valuedTargets node fallback)
  map_fst_valuedTargets : ∀ node < view.nodeCount, ∀ fallback,
    (view.valuedTargets node fallback).map Prod.fst = view.targets node
  sorted : ∀ node < view.nodeCount, (view.targets node).Pairwise (· ≤ ·)
  target_lt : ∀ node < view.nodeCount, ∀ target ∈ view.targets node, target < view.nodeCount
  degree_eq : ∀ node < view.nodeCount, view.degree node = .ok (view.targets node).length
  relationshipCount_eq : view.relationshipCount =
    ((List.range view.nodeCount).map fun node ↦ (view.targets node).length).sum
  original_iff : ∀ node, (∃ original, view.original node = .ok original) ↔ node < view.nodeCount
  node?_iff : ∀ original node,
    view.node? original = some node ↔ view.original node = .ok original
  hasLabel : ∀ node < view.nodeCount, ∀ label, ∃ has, view.hasLabel node label = .ok has
  size_columns : ∀ key column, view.column? key = some column → column.size = view.nodeCount

theorem Contract.fst_mem_targets {view : View} (h : view.Contract) {node : Nat}
    (hnode : node < view.nodeCount) {fallback : ValueBits} {pair : Nat × ValueBits}
    (hpair : pair ∈ view.valuedTargets node fallback) : pair.1 ∈ view.targets node := by
  rw [← h.map_fst_valuedTargets node hnode fallback]
  exact List.mem_map_of_mem hpair

/-- Views with the same data keep the same contract. -/
theorem Contract.of_sameData {view other : View} (h : view.Contract) (hsame : other.SameData view) :
    other.Contract := by
  have hcount := hsame.nodeCount_eq
  have htargets (node : Nat) : other.targets node = view.targets node :=
    congrArg Reading.elements (hsame.reading_eq node)
  have hvalued (node : Nat) (fallback : ValueBits) :
      other.valuedTargets node fallback = view.valuedTargets node fallback :=
    congrArg Reading.elements (hsame.valueReading_eq node fallback)
  constructor
  case handsOut =>
    intro node hnode
    rw [handsOut_iff, hsame.reading_eq, htargets, ← handsOut_iff]
    exact h.handsOut node (hcount ▸ hnode)
  case handsOutValues =>
    intro node hnode fallback
    rw [handsOutValues_iff, hsame.valueReading_eq, hvalued, ← handsOutValues_iff]
    exact h.handsOutValues node (hcount ▸ hnode) fallback
  case map_fst_valuedTargets =>
    intro node hnode fallback
    rw [hvalued, htargets]
    exact h.map_fst_valuedTargets node (hcount ▸ hnode) fallback
  case sorted =>
    intro node hnode
    rw [htargets]
    exact h.sorted node (hcount ▸ hnode)
  case target_lt =>
    intro node hnode
    rw [htargets, hcount]
    exact h.target_lt node (hcount ▸ hnode)
  case degree_eq =>
    intro node hnode
    rw [hsame.degree_eq, htargets]
    exact h.degree_eq node (hcount ▸ hnode)
  case relationshipCount_eq =>
    simp only [hsame.relationshipCount_eq, hcount, htargets, h.relationshipCount_eq]
  case original_iff =>
    intro node
    rw [hsame.original_eq, hcount]
    exact h.original_iff node
  case node?_iff =>
    intro original node
    rw [hsame.node?_eq, hsame.original_eq]
    exact h.node?_iff original node
  case hasLabel =>
    intro node hnode label
    rw [hsame.hasLabel_eq]
    exact h.hasLabel node (hcount ▸ hnode) label
  case size_columns =>
    intro key column hcolumn
    rw [column?, hsame.columns_eq] at hcolumn
    rw [hcount]
    exact h.size_columns key column hcolumn

end View

end PackedGraph
