import PackedGraph.Proofs.Store.BuildAndRead
import PackedGraph.Proofs.Store.Views
import PackedGraph.Proofs.View.Selection

/-!
# Filtered views

A filtered view of a view that keeps its contract shows the subgraph that is induced by the nodes
with at least one of the labels, and keeps the contract itself. So filters can be nested.
-/

namespace PackedGraph

/-- The new number of a node, if it passes a filter. -/
def Filter.renamed? (filter : Filter) (node : Nat) : Option Nat := filter.toFiltered[node]?.join

namespace View

/-- A filter of a view shows the subgraph that is induced by the nodes with some labels. -/
structure Induces (view : View) (labels : List String) (inner : View) (filter : Filter) :
    Prop where
  /-- The underlying view has been moved, with other cursors, into the filtered one. -/
  inner_fresh : inner.fresh = view.fresh
  strictMono_root : ∀ v w v' w', filter.root v = .ok v' → filter.root w = .ok w' → v < w → v' < w'
  exists_root_iff : ∀ root, (∃ node, filter.root node = .ok root) ↔
    root < view.nodeCount ∧ view.Carries labels root
  filtered_iff : ∀ root < view.nodeCount, ∃ kept, filter.filtered root = .ok kept ∧
    ∀ node, kept = some node ↔ filter.root node = .ok root
  root_iff : ∀ node, (∃ root, filter.root node = .ok root) ↔
    node < (filtered inner filter).nodeCount
  original_eq : ∀ node root, filter.root node = .ok root →
    (filtered inner filter).original node = view.original root
  node?_iff : ∀ original node, (filtered inner filter).node? original = some node ↔
    ∃ root, view.node? original = some root ∧ filter.root node = .ok root
  hasLabel_eq : ∀ node root, filter.root node = .ok root →
    (filtered inner filter).hasLabel node = view.hasLabel root
  targets_eq : ∀ node root, filter.root node = .ok root →
    (filtered inner filter).targets node = (view.targets root).filterMap filter.renamed?
  valuedTargets_eq : ∀ node root, filter.root node = .ok root → ∀ fallback,
    (filtered inner filter).valuedTargets node fallback =
      (view.valuedTargets root fallback).filterMap fun pair ↦
        (filter.renamed? pair.1).map fun target ↦ (target, pair.2)
  columns_agree : ∀ key, Option.Rel
    (fun column selected ↦ ∀ node root, filter.root node = .ok root →
      selected.AgreesAt column node root)
    (view.column? key) ((filtered inner filter).column? key)

theorem hasTopology_of_degree_eq_ok {view : View} {node degree : Nat}
    (h : view.degree node = .ok degree) : view.hasTopology = true := by
  cases view with
  | packed view =>
    rw [hasTopology, base]
    rw [View.degree] at h
    cases htopology : view.topology with
    | none =>
      rw [htopology] at h
      cases h
    | some reader => rfl
  | filtered inner filter =>
    by_cases htopology : inner.hasTopology
    · exact htopology
    · rw [View.degree, if_neg htopology] at h
      cases h

/-- The filter that keeps the nodes with at least one of some labels. -/
def labelFilter (view : View) (labels : List String) (columns : Std.TreeMap String Column) :
    Filter :=
  let roots := view.carriers labels
  let toFiltered := positions roots view.nodeCount
  let degrees := roots.map fun root ↦
    ((view.targets root).filterMap (toFiltered[·]?.join)).length
  { toRoot := roots.toArray, toFiltered, columns
    degrees := degrees.toArray
    relationshipCount := degrees.sum }

section

variable {view inner : View} {labels : List String} {columns : Std.TreeMap String Column}
  {node root : Nat}

theorem nodup_carriers (view : View) (labels : List String) : (view.carriers labels).Nodup :=
  (view.pairwise_carriers labels).imp Nat.ne_of_lt

/-- Filtering by label succeeds if every label is known, and keeps what it should. -/
theorem Contract.filter_eq (h : view.Contract) (labels : List String) :
    ∃ inner columns, inner.fresh = view.fresh ∧
      (∀ key : String, Option.Rel (Column.Selects (view.carriers labels).toArray)
        (view.column? key) columns[key]?) ∧
      view.filter labels =
        match labels.find? fun label ↦ !view.labels.contains label with
        | some label => .error (.unknownLabel label)
        | none => .ok (.filtered inner (view.labelFilter labels columns)) := by
  have hroots : ∀ root ∈ view.carriers labels, root < view.nodeCount := fun root hroot ↦
    (mem_carriers_iff.mp hroot).1
  obtain ⟨columns, hcolumns, hrel⟩ := h.selectColumns_eq (view.carriers labels).toArray
    fun root hroot ↦ hroots root (List.mem_toArray.mp hroot)
  obtain ⟨inner, hdegrees, hinner⟩ := keptDegrees_eq rfl
    (positions (view.carriers labels) view.nodeCount)
    (fun root hroot ↦ h.handsOut root (hroots root hroot)) fun root hroot target htarget ↦ by
      rw [size_positions (view.nodup_carriers labels)]
      exact h.target_lt root (hroots root hroot) target htarget
  have hcolumns' : inner.selectColumns (view.carriers labels).toArray = .ok columns := by
    rw [selectColumns, (SameData.of_fresh hinner).columns_eq]
    exact hcolumns
  refine ⟨inner, columns, hinner, hrel, ?_⟩
  rw [filter]
  cases labels.find? fun label ↦ !view.labels.contains label with
  | some label => rfl
  | none =>
    simp only [h.nodesWithLabels_eq, Except.mapError, bind, Except.bind, hdegrees, hcolumns',
      ← List.sum_eq_foldl]
    rfl

theorem root_labelFilter : (view.labelFilter labels columns).root node = .ok root ↔
    (view.carriers labels)[node]? = some root := by
  rw [Filter.root_eq_ok_iff, labelFilter, List.getElem?_toArray]

/-- A node of the view has a new number exactly when it passes, and it is the number of the node. -/
theorem filtered_labelFilter (hroot : root < view.nodeCount) :
    (view.labelFilter labels columns).filtered root =
        .ok ((view.labelFilter labels columns).renamed? root) ∧
      ∀ node, (view.labelFilter labels columns).renamed? root = some node ↔
        (view.labelFilter labels columns).root node = .ok root := by
  obtain ⟨kept, hkept, hiff⟩ := getElem?_positions (view.nodup_carriers labels) hroot
  have hrenamed : (view.labelFilter labels columns).renamed? root = kept := by
    rw [Filter.renamed?, labelFilter, hkept, Option.join_some]
  refine ⟨?_, fun node ↦ ?_⟩
  · rw [hrenamed, Filter.filtered_eq_ok_iff, labelFilter, hkept]
  · rw [hrenamed, hiff, root_labelFilter]

theorem root_lt (h : (view.labelFilter labels columns).root node = .ok root) :
    root < view.nodeCount :=
  (mem_carriers_iff.mp (List.mem_of_getElem? (root_labelFilter.mp h))).1

theorem exists_root_labelFilter_iff : (∃ root, (view.labelFilter labels columns).root node =
    .ok root) ↔ node < (filtered inner (view.labelFilter labels columns)).nodeCount := by
  simp only [root_labelFilter]
  constructor
  · rintro ⟨root, hroot⟩
    exact (List.getElem?_eq_some_iff.mp hroot).1
  · intro hnode
    exact ⟨_, List.getElem?_eq_getElem hnode⟩

/-- The filtered view hands out the targets that pass, under their new numbers. -/
theorem Contract.reading_filtered (h : view.Contract) (hinner : inner.fresh = view.fresh)
    (hroot : (view.labelFilter labels columns).root node = .ok root) :
    (filtered inner (view.labelFilter labels columns)).reading node =
      ⟨(view.targets root).filterMap (view.labelFilter labels columns).renamed?, .ok ()⟩ := by
  have hlt := root_lt hroot
  have hread := handsOut_iff.mp (h.handsOut root hlt)
  simp only [reading, hroot, reading_congr hinner, hread]
  exact Reading.pick_eq (fun target htarget ↦
    (filtered_labelFilter (h.target_lt root hlt target htarget)).1) _

theorem Contract.valueReading_filtered (h : view.Contract) (hinner : inner.fresh = view.fresh)
    (hroot : (view.labelFilter labels columns).root node = .ok root) (fallback : ValueBits) :
    (filtered inner (view.labelFilter labels columns)).valueReading node fallback =
      ⟨(view.valuedTargets root fallback).filterMap fun pair ↦
        ((view.labelFilter labels columns).renamed? pair.1).map fun target ↦ (target, pair.2),
        .ok ()⟩ := by
  have hlt := root_lt hroot
  have hread := handsOutValues_iff.mp (h.handsOutValues root hlt fallback)
  simp only [valueReading, hroot, valueReading_congr hinner, hread]
  apply Reading.pick_eq
  intro pair hpair
  have htarget := h.target_lt root hlt pair.1 (h.fst_mem_targets hlt hpair)
  rw [(filtered_labelFilter htarget).1]
  rfl

theorem Contract.induces (h : view.Contract) (hinner : inner.fresh = view.fresh)
    (hcolumns : ∀ key : String, Option.Rel (Column.Selects (view.carriers labels).toArray)
      (view.column? key) columns[key]?) :
    view.Induces labels inner (view.labelFilter labels columns) where
  inner_fresh := hinner
  strictMono_root := by
    intro v w v' w' hv hw hlt
    rw [root_labelFilter] at hv hw
    obtain ⟨hvlt, rfl⟩ := List.getElem?_eq_some_iff.mp hv
    obtain ⟨hwlt, rfl⟩ := List.getElem?_eq_some_iff.mp hw
    exact List.pairwise_iff_getElem.mp (view.pairwise_carriers labels) v w hvlt hwlt hlt
  exists_root_iff := by
    intro root
    simp only [root_labelFilter]
    rw [← List.mem_iff_getElem?, mem_carriers_iff]
  filtered_iff := fun root hroot ↦ ⟨_, filtered_labelFilter hroot⟩
  root_iff := fun node ↦ exists_root_labelFilter_iff
  original_eq := by
    intro node root hroot
    simp only [original, hroot, (SameData.of_fresh hinner).original_eq]
    rfl
  node?_iff := by
    intro original node
    rw [node?, (SameData.of_fresh hinner).node?_eq, Option.bind_eq_some_iff]
    refine exists_congr fun root ↦ and_congr_right fun hroot ↦ ?_
    have hlt := (h.original_iff root).mp ⟨original, (h.node?_iff original root).mp hroot⟩
    exact (filtered_labelFilter hlt).2 node
  hasLabel_eq := by
    intro node root hroot
    funext label
    simp only [View.hasLabel, hroot, (SameData.of_fresh hinner).hasLabel_eq]
    rfl
  targets_eq := fun node root hroot ↦
    congrArg Reading.elements (h.reading_filtered hinner hroot)
  valuedTargets_eq := fun node root hroot fallback ↦
    congrArg Reading.elements (h.valueReading_filtered hinner hroot fallback)
  columns_agree := by
    intro key
    have hrel := hcolumns key
    change Option.Rel _ (view.column? key) columns[key]?
    generalize view.column? key = column, columns[key]? = selected at hrel ⊢
    cases hrel with
    | none => exact .none
    | some hselects =>
      refine .some fun node root hroot ↦ hselects.2 node root ?_
      rw [List.getElem?_toArray]
      exact root_labelFilter.mp hroot

/-- Every node of a filtered view comes from a node of the view. -/
theorem Induces.exists_root {filter : Filter} (hinduces : view.Induces labels inner filter)
    (hnode : node < (filtered inner filter).nodeCount) :
    ∃ root, filter.root node = .ok root ∧ root < view.nodeCount := by
  obtain ⟨root, hroot⟩ := (hinduces.root_iff node).mpr hnode
  exact ⟨root, hroot, ((hinduces.exists_root_iff root).mp ⟨node, hroot⟩).1⟩

theorem Induces.renamed?_iff {filter : Filter} (hinduces : view.Induces labels inner filter)
    (hroot : root < view.nodeCount) :
    filter.renamed? root = some node ↔ filter.root node = .ok root := by
  obtain ⟨kept, hkept, hiff⟩ := hinduces.filtered_iff root hroot
  rw [← hiff node, Filter.renamed?, Filter.filtered_eq_ok_iff.mp hkept, Option.join_some]

theorem Induces.original_eq_ok_iff {filter : Filter} (hinduces : view.Induces labels inner filter)
    {original : UInt64} : (filtered inner filter).original node = .ok original ↔
      ∃ root, filter.root node = .ok root ∧ view.original root = .ok original := by
  constructor
  · intro horiginal
    cases hroot : filter.root node with
    | error fault =>
      rw [View.original, hroot] at horiginal
      cases horiginal
    | ok root =>
      rw [hinduces.original_eq node root hroot] at horiginal
      exact ⟨root, rfl, horiginal⟩
  · rintro ⟨root, hroot, horiginal⟩
    rwa [hinduces.original_eq node root hroot]

theorem Induces.map_fst_valuedTargets {filter : Filter}
    (hinduces : view.Induces labels inner filter) (h : view.Contract)
    (hnode : node < (filtered inner filter).nodeCount) (fallback : ValueBits) :
    ((filtered inner filter).valuedTargets node fallback).map Prod.fst =
      (filtered inner filter).targets node := by
  obtain ⟨root, hroot, hlt⟩ := hinduces.exists_root hnode
  rw [hinduces.valuedTargets_eq node root hroot, hinduces.targets_eq node root hroot,
    ← h.map_fst_valuedTargets root hlt fallback, List.map_filterMap, List.filterMap_map]
  congr 1
  funext pair
  simp [Function.comp_def]

/-- The new numbers are in the order of the old ones, so the lists remain sorted. -/
theorem Induces.pairwise_targets {filter : Filter} (hinduces : view.Induces labels inner filter)
    (h : view.Contract) (hnode : node < (filtered inner filter).nodeCount) :
    ((filtered inner filter).targets node).Pairwise (· ≤ ·) := by
  obtain ⟨root, hroot, hlt⟩ := hinduces.exists_root hnode
  rw [hinduces.targets_eq node root hroot, List.pairwise_filterMap]
  refine (h.sorted root hlt).imp_of_mem fun ha hb hab i hi j hj ↦ ?_
  have hia := (hinduces.renamed?_iff (h.target_lt root hlt _ ha)).mp hi
  have hjb := (hinduces.renamed?_iff (h.target_lt root hlt _ hb)).mp hj
  by_contra hji
  exact absurd hab (not_le.mpr (hinduces.strictMono_root j i _ _ hjb hia (not_le.mp hji)))

theorem Induces.target_lt {filter : Filter} (hinduces : view.Induces labels inner filter)
    (h : view.Contract) (hnode : node < (filtered inner filter).nodeCount) {target : Nat}
    (htarget : target ∈ (filtered inner filter).targets node) :
    target < (filtered inner filter).nodeCount := by
  obtain ⟨root, hroot, hlt⟩ := hinduces.exists_root hnode
  rw [hinduces.targets_eq node root hroot, List.mem_filterMap] at htarget
  obtain ⟨other, hother, hrenamed⟩ := htarget
  exact (hinduces.root_iff target).mp
    ⟨other, (hinduces.renamed?_iff (h.target_lt root hlt other hother)).mp hrenamed⟩

/-- The degrees are counted while filtering. -/
theorem Contract.degree_filtered (h : view.Contract) (hinner : inner.fresh = view.fresh)
    (hroot : (view.labelFilter labels columns).root node = .ok root) :
    (filtered inner (view.labelFilter labels columns)).degree node =
      .ok ((view.targets root).filterMap (view.labelFilter labels columns).renamed?).length := by
  have htopology : inner.hasTopology = true := by
    rw [(SameData.of_fresh hinner).hasTopology_eq]
    exact hasTopology_of_degree_eq_ok (h.degree_eq root (root_lt hroot))
  rw [View.degree, if_pos htopology]
  rw [labelFilter, List.getElem?_toArray, List.getElem?_map, root_labelFilter.mp hroot]
  rfl

theorem Contract.relationshipCount_filtered (h : view.Contract) (hinner : inner.fresh = view.fresh) :
    let result := filtered inner (view.labelFilter labels columns)
    result.relationshipCount =
      ((List.range result.nodeCount).map fun node ↦ (result.targets node).length).sum := by
  refine congrArg List.sum (List.ext_getElem ?_ fun i hi _ ↦ ?_)
  · rw [List.length_map, List.length_map, List.length_range]
    rfl
  · rw [List.length_map] at hi
    have hreading : (filtered inner (view.labelFilter labels columns)).reading i = _ :=
      h.reading_filtered hinner (root_labelFilter.mpr (List.getElem?_eq_getElem hi))
    rw [List.getElem_map, List.getElem_map, List.getElem_range]
    exact congrArg (List.length ∘ Reading.elements) hreading.symm

/-- A filtered view keeps the contract. -/
theorem Contract.filtered (h : view.Contract) (hinner : inner.fresh = view.fresh)
    (hcolumns : ∀ key : String, Option.Rel (Column.Selects (view.carriers labels).toArray)
      (view.column? key) columns[key]?) :
    (View.filtered inner (view.labelFilter labels columns)).Contract := by
  have hinduces := h.induces hinner hcolumns
  constructor
  case handsOut =>
    intro node hnode
    obtain ⟨root, hroot, _⟩ := hinduces.exists_root hnode
    rw [handsOut_iff, hinduces.targets_eq node root hroot, h.reading_filtered hinner hroot]
  case handsOutValues =>
    intro node hnode fallback
    obtain ⟨root, hroot, _⟩ := hinduces.exists_root hnode
    rw [handsOutValues_iff, hinduces.valuedTargets_eq node root hroot,
      h.valueReading_filtered hinner hroot]
  case map_fst_valuedTargets => exact fun node hnode ↦ hinduces.map_fst_valuedTargets h hnode
  case sorted => exact fun node hnode ↦ hinduces.pairwise_targets h hnode
  case target_lt => exact fun node hnode target htarget ↦ hinduces.target_lt h hnode htarget
  case degree_eq =>
    intro node hnode
    obtain ⟨root, hroot, _⟩ := hinduces.exists_root hnode
    rw [h.degree_filtered hinner hroot, hinduces.targets_eq node root hroot]
  case relationshipCount_eq => exact h.relationshipCount_filtered hinner
  case original_iff =>
    intro node
    simp only [hinduces.original_eq_ok_iff]
    constructor
    · rintro ⟨original, root, hroot, _⟩
      exact (hinduces.root_iff node).mp ⟨root, hroot⟩
    · intro hnode
      obtain ⟨root, hroot, hlt⟩ := hinduces.exists_root hnode
      obtain ⟨original, horiginal⟩ := (h.original_iff root).mpr hlt
      exact ⟨original, root, hroot, horiginal⟩
  case node?_iff =>
    intro original node
    rw [hinduces.node?_iff, hinduces.original_eq_ok_iff]
    refine exists_congr fun root ↦ ?_
    rw [h.node?_iff original root, and_comm]
  case hasLabel =>
    intro node hnode label
    obtain ⟨root, hroot, hlt⟩ := hinduces.exists_root hnode
    rw [hinduces.hasLabel_eq node root hroot]
    exact h.hasLabel root hlt label
  case size_columns =>
    intro key column hcolumn
    have hrel := hcolumns key
    change columns[key]? = some column at hcolumn
    rw [hcolumn] at hrel
    generalize view.column? key = original at hrel
    cases hrel with
    | some hselects => exact hselects.1

end

/-- A view of a built graph has been opened on its store, of which blocks may have been released,
or it is another view of the same data, or a filtered view of such a view. -/
inductive OfBuiltGraph : View → Prop where
  | opened {calls : List BuilderCall} {graph : CompressedGraph} {store : Store}
      {memory after now later : Memory} {key : Option String} {view : View} :
      (GraphBuilder.new.performAll calls).compress = .ok graph →
      (graph.toStore (GraphBuilder.new.performAll calls).account).run memory = (store, after) →
      store.OnlyReleased after now → (store.view key).run.run now = (.ok view, later) →
      OfBuiltGraph view
  | sameData {view other : View} : OfBuiltGraph view → other.SameData view → OfBuiltGraph other
  | filtered {view result : View} {labels : List String} :
      OfBuiltGraph view → view.filter labels = .ok result → OfBuiltGraph result

theorem Contract.exists_of_filter {view result : View} {labels : List String} (h : view.Contract)
    (hresult : view.filter labels = .ok result) :
    ∃ inner filter, result = .filtered inner filter ∧ view.Induces labels inner filter ∧
      result.Contract := by
  obtain ⟨inner, columns, hinner, hcolumns, heq⟩ := h.filter_eq labels
  rw [heq] at hresult
  split at hresult
  · exact absurd hresult nofun
  · obtain rfl := Except.ok.inj hresult
    exact ⟨inner, _, rfl, h.induces hinner hcolumns, h.filtered hinner hcolumns⟩

/-- Every view of a built graph keeps the contract, however often it has been filtered. -/
theorem OfBuiltGraph.contract {view : View} (h : view.OfBuiltGraph) : view.Contract := by
  induction h with
  | @opened calls graph store memory after now later key view hcompress hstore honly hview =>
    have hvalid := GraphBuilder.valid_new.performAll calls
    have hkeeps := (hvalid.stores_of_compress hcompress).keeps_of_run_toStore hstore
    obtain ⟨packed, position, rfl, hshows, hcolumns⟩ := hkeeps.shows_of_run_view honly hview
    apply hshows.contract hvalid
    rw [hcolumns]
    exact hkeeps.size_columns
  | sameData _ hsame ih => exact ih.of_sameData hsame
  | filtered _ hresult ih =>
    obtain ⟨_, _, _, _, hcontract⟩ := ih.exists_of_filter hresult
    exact hcontract

/-- A graph can be viewed as soon as it is built, with the values of any key or without values. -/
theorem OfBuiltGraph.exists_of_compress {calls : List BuilderCall} {graph : CompressedGraph}
    {key : Option String} (hcompress : (GraphBuilder.new.performAll calls).compress = .ok graph)
    (hkey : ∀ k ∈ key, k ∈ (GraphBuilder.new.performAll calls).keys) :
    ∃ view : PackedView, (packed view).OfBuiltGraph ∧
      view.Shows (GraphBuilder.new.performAll calls)
        (key.map ((GraphBuilder.new.performAll calls).keys.idxOf ·)) := by
  have hvalid := GraphBuilder.valid_new.performAll calls
  obtain ⟨store, after, hstore, hkeeps⟩ := (hvalid.stores_of_compress hcompress).toStore
    (GraphBuilder.new.performAll calls).account .empty
  obtain ⟨view, later, hview, hshows, _⟩ := hkeeps.view_eq hkey
  exact ⟨view, .opened hcompress hstore (.refl store after) hview, hshows⟩

end View

/-- Filtering a view that keeps the contract, such as any view of a built graph, by labels that it
has gives a view that shows the induced subgraph and keeps the contract again. -/
theorem filtered_view_shows_induced_subgraph (view : View) (labels : List String) :
    (view.OfBuiltGraph → view.Contract) ∧
    (view.Contract → (∀ label ∈ labels, label ∈ view.labels) →
      ∃ result, view.filter labels = .ok result) ∧
    ∀ result, view.Contract → view.filter labels = .ok result →
      ∃ inner filter, result = .filtered inner filter ∧ view.Induces labels inner filter ∧
        result.Contract := by
  refine ⟨View.OfBuiltGraph.contract, fun hview hlabels ↦ ?_,
    fun result hview hresult ↦ hview.exists_of_filter hresult⟩
  obtain ⟨inner, columns, _, _, heq⟩ := hview.filter_eq labels
  have hfind : labels.find? (fun label ↦ !view.labels.contains label) = none := by
    rw [List.find?_eq_none]
    intro label hlabel
    simpa using hlabels label hlabel
  rw [hfind] at heq
  exact ⟨_, heq⟩

/-- The calls for a triangle with parallel arcs and a loop, where one of the nodes gets a label. -/
def labelledCalls : List BuilderCall := parallelCalls ++ [.addNode 9 ["Kept"]]

theorem performAll_labelledCalls : GraphBuilder.new.performAll labelledCalls =
    ((GraphBuilder.new.performAll parallelCalls).perform (.addNode 9 ["Kept"])).2 :=
  List.foldl_append

theorem exists_compress_parallelCalls_append {calls : List BuilderCall}
    (hcalls : ∀ call ∈ calls, call.isData) (hshort : calls.length < 2 ^ 30) :
    ∃ graph, (GraphBuilder.new.performAll (parallelCalls ++ calls)).compress = .ok graph := by
  have hsettings : (GraphBuilder.new.performAll (parallelCalls ++ calls)).settings =
      (.undirected, .sum, ["length", "cost"], .notANumber, 1, none) := by
    rw [GraphBuilder.performAll, List.foldl_append]
    exact (GraphBuilder.settings_performAll (GraphBuilder.valid_new.performAll parallelCalls)
      hcalls).trans settings_parallelCalls
  simp only [GraphBuilder.settings, Prod.mk.injEq] at hsettings
  obtain ⟨_, _, hkeys, _, hshift, _⟩ := hsettings
  apply GraphBuilder.exists_compress_of_length_lt
  · exact ⟨hshift.ge, hshift.trans_le (by decide), by rw [hkeys]; decide, by rw [hkeys]; decide⟩
  · have hlength : (parallelCalls ++ calls).length = 9 + calls.length := List.length_append
    omega

/-- A node that is added with some labels carries each of them. -/
theorem exists_hasLabel_addNode {builder : GraphBuilder} (h : builder.Valid) (original : UInt64)
    {names : List String} {labels : List Label} (hlabels : Label.ofNames names = .ok labels) :
    let added := (builder.perform (.addNode original names)).2
    ∃ node < added.nodeCount, ∀ label ∈ labels,
      added.ids.build.hasLabel node label.name = true := by
  have hrun : (builder.perform (.addNode original names)).2 = { builder with
      ids := (builder.ids.register original).1.addLabels (builder.ids.register original).2
        labels } := by
    simp only [GraphBuilder.perform, BuilderCall.toCall, run_map, GraphBuilder.run_addNode, hlabels]
  refine ⟨(builder.ids.register original).2, ?_, fun label hlabel ↦ ?_⟩
  · rw [hrun, GraphBuilder.nodeCount, IdMapBuilder.nodeCount_addLabels]
    exact (h.ids.register original).node_lt (builder.ids.node?_register original)
  · rw [hrun]
    exact (IdMapBuilder.hasMember_addLabels _ _ hlabel).hasLabel

theorem exists_compress_labelledCalls :
    ∃ graph, (GraphBuilder.new.performAll labelledCalls).compress = .ok graph :=
  exists_compress_parallelCalls_append (by decide) (by decide)

theorem exists_hasLabel_labelledCalls :
    ∃ node < (GraphBuilder.new.performAll labelledCalls).nodeCount,
      (GraphBuilder.new.performAll labelledCalls).ids.build.hasLabel node "Kept" = true := by
  obtain ⟨label, hlabels, hname⟩ : ∃ label : Label,
      Label.ofNames ["Kept"] = .ok [label] ∧ label.name = "Kept" :=
    ⟨⟨"Kept", by decide, by decide⟩, rfl, rfl⟩
  have hvalid := GraphBuilder.valid_new.performAll parallelCalls
  rw [performAll_labelledCalls]
  generalize GraphBuilder.new.performAll parallelCalls = builder at hvalid
  obtain ⟨node, hlt, hhas⟩ := exists_hasLabel_addNode hvalid 9 hlabels
  have hkept := hhas label List.mem_cons_self
  rw [hname] at hkept
  exact ⟨node, hlt, hkept⟩

theorem filtered_view_shows_labelled_node :
    ∃ view : View, view.OfBuiltGraph ∧ view.Contract ∧
      (∀ label ∈ ["Kept"], label ∈ view.labels) ∧
      ∃ inner filter, view.filter ["Kept"] = .ok (.filtered inner filter) ∧
        view.Induces ["Kept"] inner filter ∧ (View.filtered inner filter).Contract ∧
        ∃ node root, filter.root node = .ok root := by
  obtain ⟨graph, hcompress⟩ := exists_compress_labelledCalls
  obtain ⟨kept, hlt, hkept⟩ := exists_hasLabel_labelledCalls
  have hvalid := GraphBuilder.valid_new.performAll labelledCalls
  obtain ⟨store, after, hstore, hkeeps⟩ := (hvalid.stores_of_compress hcompress).toStore
    (GraphBuilder.new.performAll labelledCalls).account .empty
  have hkey : ∀ k ∈ (none : Option String), k ∈ (GraphBuilder.new.performAll labelledCalls).keys :=
    nofun
  obtain ⟨packed, later, hview, hshows, _⟩ := hkeeps.view_eq hkey
  have hbuilt := View.OfBuiltGraph.opened hcompress hstore (.refl store after) hview
  obtain ⟨hcontract, hsucceeds, hinduces⟩ :=
    filtered_view_shows_induced_subgraph (.packed packed) ["Kept"]
  have hlabels : ∀ label ∈ ["Kept"], label ∈ (View.packed packed).labels := by
    intro label hlabel
    rw [List.mem_singleton.mp hlabel, View.labels, View.base, hshows.ids_eq]
    exact IdMap.mem_labels_of_hasLabel hkept
  obtain ⟨result, hresult⟩ := hsucceeds (hcontract hbuilt) hlabels
  obtain ⟨inner, filter, rfl, hshown, hkeepsContract⟩ :=
    hinduces result (hcontract hbuilt) hresult
  refine ⟨_, hbuilt, hcontract hbuilt, hlabels, inner, filter, hresult, hshown, hkeepsContract, ?_⟩
  obtain ⟨node, hnode⟩ := (hshown.exists_root_iff kept).mpr
    ⟨by rw [View.nodeCount, hshows.ids_eq]; exact hlt, "Kept", List.mem_singleton_self _, by
      rw [View.hasLabel, hshows.ids_eq, hkept]⟩
  exact ⟨node, kept, hnode⟩

end PackedGraph
