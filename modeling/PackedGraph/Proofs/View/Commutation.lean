import PackedGraph.Proofs.View.InducedSubgraph

/-!
# Filters commute

A filtered view of a filtered view shows the nodes that pass both filters, in their order in the
view at the bottom, and as they are there. So the order of two filters makes no difference.
-/

namespace PackedGraph

variable {α β γ : Type}

/-! ## Lists of nodes -/

theorem idxOf?_eq_some_iff_of_nodup {nodes : List Nat} (h : nodes.Nodup) {node i : Nat} :
    nodes.idxOf? node = some i ↔ nodes[i]? = some node := by
  rw [List.idxOf?_eq_some_iff, List.getElem?_eq_some_iff]
  refine exists_congr fun hi ↦ and_iff_left_of_imp ?_
  rintro rfl j hj heq
  exact hj.ne ((h.getElem_inj_iff).mp heq)

/-- The nodes at some places of a list. -/
def nodesAt (nodes places : List Nat) : List Nat := places.map (nodes.getD · 0)

theorem getElem?_nodesAt {nodes places : List Nat}
    (hplaces : ∀ place ∈ places, place < nodes.length) {i node : Nat} :
    (nodesAt nodes places)[i]? = some node ↔
      ∃ place, places[i]? = some place ∧ nodes[place]? = some node := by
  rw [nodesAt, List.getElem?_map, Option.map_eq_some_iff]
  refine exists_congr fun place ↦ and_congr_right fun hplace ↦ ?_
  have hlt := hplaces place (List.mem_of_getElem? hplace)
  rw [List.getD_eq_getElem?_getD, List.getElem?_eq_getElem hlt, Option.getD_some,
    Option.some.injEq]

theorem pairwise_nodesAt {nodes places : List Nat} (hnodes : nodes.Pairwise (· < ·))
    (hsorted : places.Pairwise (· < ·)) (hplaces : ∀ place ∈ places, place < nodes.length) :
    (nodesAt nodes places).Pairwise (· < ·) := by
  rw [nodesAt, List.pairwise_map]
  refine hsorted.imp_of_mem fun {a b} ha hb hab ↦ ?_
  rw [List.getD_eq_getElem _ _ (hplaces a ha), List.getD_eq_getElem _ _ (hplaces b hb)]
  exact List.pairwise_iff_getElem.mp hnodes a b _ _ hab

/-- A node is found at some places by finding its place first. -/
theorem idxOf?_nodesAt {nodes places : List Nat} (hnodes : nodes.Pairwise (· < ·))
    (hsorted : places.Pairwise (· < ·)) (hplaces : ∀ place ∈ places, place < nodes.length)
    (node : Nat) :
    (nodes.idxOf? node).bind places.idxOf? = (nodesAt nodes places).idxOf? node := by
  have hnodup := (pairwise_nodesAt hnodes hsorted hplaces).imp Nat.ne_of_lt
  apply Option.ext
  intro i
  rw [Option.bind_eq_some_iff, idxOf?_eq_some_iff_of_nodup hnodup, getElem?_nodesAt hplaces]
  refine exists_congr fun place ↦ ?_
  rw [idxOf?_eq_some_iff_of_nodup (hnodes.imp Nat.ne_of_lt),
    idxOf?_eq_some_iff_of_nodup (hsorted.imp Nat.ne_of_lt), and_comm]

/-- Filtering the places of a list filters the list. -/
theorem nodesAt_filter_range (nodes : List Nat) (p : Nat → Bool) :
    nodesAt nodes ((List.range nodes.length).filter fun place ↦ p (nodes.getD place 0)) =
      nodes.filter p := by
  have hall : (List.range nodes.length).map (nodes.getD · 0) = nodes := by
    apply List.ext_getElem
    · rw [List.length_map, List.length_range]
    · intro i hi _
      rw [List.length_map, List.length_range] at hi
      rw [List.getElem_map, List.getElem_range, List.getD_eq_getElem _ _ hi]
  calc
    _ = ((List.range nodes.length).map (nodes.getD · 0)).filter p := (List.filter_map ..).symm
    _ = nodes.filter p := by rw [hall]

/-! ## Optional columns -/

theorem optionRel_imp {R S : α → β → Prop} (h : ∀ a b, R a b → S a b) {a : Option α}
    {b : Option β} (hab : Option.Rel R a b) : Option.Rel S a b := by
  cases hab with
  | none => exact .none
  | some hab => exact .some (h _ _ hab)

theorem optionRel_flip {R : α → β → Prop} {a : Option α} {b : Option β} (hab : Option.Rel R a b) :
    Option.Rel (flip R) b a := by
  cases hab with
  | none => exact .none
  | some hab => exact .some hab

theorem optionRel_comp {R : α → β → Prop} {S : β → γ → Prop} {a : Option α} {b : Option β}
    {c : Option γ} (hab : Option.Rel R a b) (hbc : Option.Rel S b c) :
    Option.Rel (Relation.Comp R S) a c := by
  cases hab with
  | none =>
    cases hbc
    exact .none
  | some hab =>
    cases hbc with
    | some hbc => exact .some ⟨_, hab, hbc⟩

namespace Column.AgreesAt

variable {column other third : Column} {node otherNode thirdNode : Nat}

theorem symm (h : column.AgreesAt other node otherNode) : other.AgreesAt column otherNode node :=
  ⟨h.type_eq.symm, h.longValue_eq.symm, h.doubleValue_eq.symm, h.arrayValue_eq.symm,
    h.hasValue_eq.symm⟩

theorem trans (h : column.AgreesAt other node otherNode)
    (h' : other.AgreesAt third otherNode thirdNode) : column.AgreesAt third node thirdNode :=
  ⟨h.type_eq.trans h'.type_eq, h.longValue_eq.trans h'.longValue_eq,
    h.doubleValue_eq.trans h'.doubleValue_eq, h.arrayValue_eq.trans h'.arrayValue_eq,
    h.hasValue_eq.trans h'.hasValue_eq⟩

end Column.AgreesAt

/-! ## Restrictions -/

namespace View

/-- A view shows some nodes of another view, in their order there: the node at each position is what
it is in the other view, except that its targets are restricted to the nodes that are shown, and
named by their positions. -/
structure Restricts (view : View) (nodes : List Nat) (result : View) : Prop where
  sorted : nodes.Pairwise (· < ·)
  node_lt : ∀ node ∈ nodes, node < view.nodeCount
  nodeCount_eq : result.nodeCount = nodes.length
  isUndirected_eq : result.isUndirected = view.isUndirected
  hasValues_eq : result.hasValues = view.hasValues
  labels_eq : result.labels = view.labels
  original_eq : ∀ i node, nodes[i]? = some node → result.original i = view.original node
  node?_iff : ∀ original i, result.node? original = some i ↔
    ∃ node, view.node? original = some node ∧ nodes[i]? = some node
  hasLabel_eq : ∀ i node, nodes[i]? = some node → result.hasLabel i = view.hasLabel node
  targets_eq : ∀ i node, nodes[i]? = some node →
    result.targets i = (view.targets node).filterMap nodes.idxOf?
  valuedTargets_eq : ∀ i node, nodes[i]? = some node → ∀ fallback,
    result.valuedTargets i fallback = (view.valuedTargets node fallback).filterMap fun pair ↦
      (nodes.idxOf? pair.1).map fun target ↦ (target, pair.2)
  columns_agree : ∀ key, Option.Rel
    (fun column selected ↦ ∀ i node, nodes[i]? = some node → selected.AgreesAt column i node)
    (view.column? key) (result.column? key)

/-- Two views answer all questions alike. -/
structure LooksLike (view other : View) : Prop where
  nodeCount_eq : view.nodeCount = other.nodeCount
  relationshipCount_eq : view.relationshipCount = other.relationshipCount
  isUndirected_eq : view.isUndirected = other.isUndirected
  hasValues_eq : view.hasValues = other.hasValues
  labels_eq : view.labels = other.labels
  original_eq : ∀ node < view.nodeCount, view.original node = other.original node
  node?_eq : ∀ original, view.node? original = other.node? original
  hasLabel_eq : ∀ node < view.nodeCount, view.hasLabel node = other.hasLabel node
  columns_agree : ∀ key, Option.Rel
    (fun column otherColumn ↦ ∀ node < view.nodeCount, column.AgreesAt otherColumn node node)
    (view.column? key) (other.column? key)
  degree_eq : ∀ node < view.nodeCount, view.degree node = other.degree node
  ended_visit : ∀ node < view.nodeCount, ∀ used usedOther : View, used.fresh = view.fresh →
    usedOther.fresh = other.fresh → ∀ (σ : Type) (consume : σ → Nat → Response σ) (state : σ),
      (used.visit node consume state).ended = (usedOther.visit node consume state).ended
  ended_visitWithValues : ∀ node < view.nodeCount, ∀ used usedOther : View,
    used.fresh = view.fresh → usedOther.fresh = other.fresh →
      ∀ (fallback : ValueBits) (σ : Type) (consume : σ → Nat → ValueBits → Response σ) (state : σ),
        (used.visitWithValues node fallback consume state).ended =
          (usedOther.visitWithValues node fallback consume state).ended

section

variable {view middle result other : View} {nodes places : List Nat} {labels : List String}

/-- Restricting a restriction. -/
theorem Restricts.trans (h : view.Restricts nodes middle) (h' : middle.Restricts places result) :
    view.Restricts (nodesAt nodes places) result := by
  have hplaces : ∀ place ∈ places, place < nodes.length := fun place hplace ↦
    h.nodeCount_eq ▸ h'.node_lt place hplace
  have hat {i node : Nat} : (nodesAt nodes places)[i]? = some node ↔ _ := getElem?_nodesAt hplaces
  have hrenamed (target : Nat) :
      (nodes.idxOf? target).bind places.idxOf? = (nodesAt nodes places).idxOf? target :=
    idxOf?_nodesAt h.sorted h'.sorted hplaces target
  constructor
  case sorted => exact pairwise_nodesAt h.sorted h'.sorted hplaces
  case node_lt =>
    intro node hnode
    obtain ⟨i, hi⟩ := List.mem_iff_getElem?.mp hnode
    obtain ⟨place, _, hplace⟩ := hat.mp hi
    exact h.node_lt node (List.mem_of_getElem? hplace)
  case nodeCount_eq => rw [h'.nodeCount_eq, nodesAt, List.length_map]
  case isUndirected_eq => exact h'.isUndirected_eq.trans h.isUndirected_eq
  case hasValues_eq => exact h'.hasValues_eq.trans h.hasValues_eq
  case labels_eq => exact h'.labels_eq.trans h.labels_eq
  case original_eq =>
    intro i node hi
    obtain ⟨place, hplace, hnode⟩ := hat.mp hi
    rw [h'.original_eq i place hplace, h.original_eq place node hnode]
  case node?_iff =>
    intro original i
    rw [h'.node?_iff]
    simp only [h.node?_iff, hat]
    constructor
    · rintro ⟨place, ⟨node, hnode, hat⟩, hplace⟩
      exact ⟨node, hnode, place, hplace, hat⟩
    · rintro ⟨node, hnode, place, hplace, hat⟩
      exact ⟨place, ⟨node, hnode, hat⟩, hplace⟩
  case hasLabel_eq =>
    intro i node hi
    obtain ⟨place, hplace, hnode⟩ := hat.mp hi
    rw [h'.hasLabel_eq i place hplace, h.hasLabel_eq place node hnode]
  case targets_eq =>
    intro i node hi
    obtain ⟨place, hplace, hnode⟩ := hat.mp hi
    rw [h'.targets_eq i place hplace, h.targets_eq place node hnode, List.filterMap_filterMap]
    simp only [hrenamed]
  case valuedTargets_eq =>
    intro i node hi fallback
    obtain ⟨place, hplace, hnode⟩ := hat.mp hi
    rw [h'.valuedTargets_eq i place hplace, h.valuedTargets_eq place node hnode,
      List.filterMap_filterMap]
    refine List.filterMap_congr fun pair _ ↦ ?_
    rw [← hrenamed]
    cases nodes.idxOf? pair.1 <;> rfl
  case columns_agree =>
    intro key
    refine optionRel_imp ?_ (optionRel_comp (h.columns_agree key) (h'.columns_agree key))
    rintro column again ⟨selected, hselected, hagain⟩ i node hi
    obtain ⟨place, hplace, hnode⟩ := hat.mp hi
    exact (hagain i place hplace).trans (hselected place node hnode)

/-- A filter of a view restricts it to the nodes with at least one of the labels. -/
theorem Contract.restricts_of_filter (h : view.Contract)
    (hresult : view.filter labels = .ok result) :
    view.Restricts (view.carriers labels) result ∧ result.Contract := by
  obtain ⟨inner, columns, hinner, hcolumns, heq⟩ := h.filter_eq labels
  rw [heq] at hresult
  split at hresult
  · exact absurd hresult nofun
  obtain rfl := Except.ok.inj hresult
  have hinduces := h.induces hinner hcolumns
  have hbase := (SameData.of_fresh hinner).base
  have hroot {i node : Nat} (hi : (view.carriers labels)[i]? = some node) :
      (view.labelFilter labels columns).root i = .ok node := root_labelFilter.mpr hi
  have hlt {i node : Nat} (hi : (view.carriers labels)[i]? = some node) : node < view.nodeCount :=
    root_lt (hroot hi)
  have hrenamed (target : Nat) (htarget : target < view.nodeCount) :
      (view.labelFilter labels columns).renamed? target =
        (view.carriers labels).idxOf? target := by
    apply Option.ext
    intro i
    rw [(filtered_labelFilter htarget).2, root_labelFilter,
      idxOf?_eq_some_iff_of_nodup (view.nodup_carriers labels)]
  refine ⟨⟨view.pairwise_carriers labels, fun node hnode ↦ (mem_carriers_iff.mp hnode).1, rfl,
    hbase.isUndirected_eq, hbase.hasValues_eq, congrArg IdMap.labels hbase.ids_eq,
    fun i node hi ↦ hinduces.original_eq i node (hroot hi), fun original i ↦ ?_,
    fun i node hi ↦ hinduces.hasLabel_eq i node (hroot hi), fun i node hi ↦ ?_,
    fun i node hi fallback ↦ ?_, fun key ↦ ?_⟩, h.filtered hinner hcolumns⟩
  · simp only [hinduces.node?_iff, root_labelFilter]
  · rw [hinduces.targets_eq i node (hroot hi)]
    exact List.filterMap_congr fun target htarget ↦
      hrenamed target (h.target_lt node (hlt hi) target htarget)
  · rw [hinduces.valuedTargets_eq i node (hroot hi)]
    refine List.filterMap_congr fun pair hpair ↦ ?_
    rw [hrenamed pair.1 (h.target_lt node (hlt hi) pair.1 (h.fst_mem_targets (hlt hi) hpair))]
  · refine optionRel_imp (fun column selected hagree ↦ ?_) (hinduces.columns_agree key)
    exact fun i node hi ↦ hagree i node (hroot hi)

/-- Two restrictions to the same nodes look alike. -/
theorem Restricts.looksLike (h : view.Restricts nodes result) (h' : view.Restricts nodes other)
    (hcontract : result.Contract) (hcontract' : other.Contract) : result.LooksLike other := by
  have hcount : result.nodeCount = other.nodeCount := h.nodeCount_eq.trans h'.nodeCount_eq.symm
  have hnode {i : Nat} (hi : i < result.nodeCount) : ∃ node, nodes[i]? = some node :=
    ⟨_, List.getElem?_eq_getElem (h.nodeCount_eq ▸ hi)⟩
  have htargets {i : Nat} (hi : i < result.nodeCount) : result.targets i = other.targets i := by
    obtain ⟨node, hnode⟩ := hnode hi
    rw [h.targets_eq i node hnode, h'.targets_eq i node hnode]
  have hvalued {i : Nat} (hi : i < result.nodeCount) (fallback : ValueBits) :
      result.valuedTargets i fallback = other.valuedTargets i fallback := by
    obtain ⟨node, hnode⟩ := hnode hi
    rw [h.valuedTargets_eq i node hnode, h'.valuedTargets_eq i node hnode]
  constructor
  · exact hcount
  · rw [hcontract.relationshipCount_eq, hcontract'.relationshipCount_eq, ← hcount]
    refine congrArg List.sum (List.map_congr_left fun i hi ↦ ?_)
    rw [htargets (List.mem_range.mp hi)]
  · exact h.isUndirected_eq.trans h'.isUndirected_eq.symm
  · exact h.hasValues_eq.trans h'.hasValues_eq.symm
  · exact h.labels_eq.trans h'.labels_eq.symm
  · intro i hi
    obtain ⟨node, hnode⟩ := hnode hi
    rw [h.original_eq i node hnode, h'.original_eq i node hnode]
  · intro original
    apply Option.ext
    intro i
    rw [h.node?_iff, h'.node?_iff]
  · intro i hi
    obtain ⟨node, hnode⟩ := hnode hi
    rw [h.hasLabel_eq i node hnode, h'.hasLabel_eq i node hnode]
  · intro key
    refine optionRel_imp ?_
      (optionRel_comp (optionRel_flip (h.columns_agree key)) (h'.columns_agree key))
    rintro selected otherSelected ⟨column, hselected, hother⟩ i hi
    obtain ⟨node, hnode⟩ := hnode hi
    exact (hselected i node hnode).trans (hother i node hnode).symm
  · intro i hi
    rw [hcontract.degree_eq i hi, hcontract'.degree_eq i (hcount ▸ hi), htargets hi]
  · intro i hi used usedOther hused husedOther σ consume state
    rw [(hcontract.handsOut i hi used hused σ consume state).1,
      (hcontract'.handsOut i (hcount ▸ hi) usedOther husedOther σ consume state).1, htargets hi]
  · intro i hi used usedOther hused husedOther fallback σ consume state
    rw [(hcontract.handsOutValues i hi fallback used hused σ consume state).1,
      (hcontract'.handsOutValues i (hcount ▸ hi) fallback usedOther husedOther σ consume state).1,
      hvalued hi]

/-- The nodes that pass two filters, in order. -/
def commonCarriers (view : View) (labels more : List String) : List Nat :=
  (List.range view.nodeCount).filter fun node ↦ view.Carries labels node ∧ view.Carries more node

theorem commonCarriers_comm (view : View) (labels more : List String) :
    view.commonCarriers labels more = view.commonCarriers more labels := by
  simp only [commonCarriers, and_comm]

theorem SameData.commonCarriers_eq {more : List String} (h : other.SameData view) :
    other.commonCarriers labels more = view.commonCarriers labels more := by
  have hcarries (node : Nat) (names : List String) :
      other.Carries names node ↔ view.Carries names node := by
    simp only [Carries, h.hasLabel_eq]
  rw [commonCarriers, h.nodeCount_eq]
  exact List.filter_congr fun node _ ↦
    decide_eq_decide.mpr (and_congr (hcarries node labels) (hcarries node more))

/-- What passes a second filter of a restricted view. -/
theorem Restricts.nodesAt_carriers {more : List String}
    (h : view.Restricts (view.carriers labels) middle) :
    nodesAt (view.carriers labels) (middle.carriers more) = view.commonCarriers labels more := by
  have hmiddle : middle.carriers more = (List.range (view.carriers labels).length).filter
      fun place ↦ view.Carries more ((view.carriers labels).getD place 0) := by
    rw [← h.nodeCount_eq]
    refine List.filter_congr fun place hplace ↦ ?_
    have hlt : place < (view.carriers labels).length := h.nodeCount_eq ▸ List.mem_range.mp hplace
    simp only [Carries, h.hasLabel_eq place _ (List.getElem?_eq_getElem hlt),
      List.getD_eq_getElem _ _ hlt]
  rw [hmiddle, nodesAt_filter_range _ fun node ↦ decide (view.Carries more node), carriers,
    List.filter_filter, commonCarriers]
  exact List.filter_congr fun node _ ↦ by rw [Bool.and_comm, Bool.decide_and]

/-- A second filter restricts the view at the bottom to the nodes that pass both. -/
theorem Contract.restricts_of_filter_filter {more : List String} (h : view.Contract)
    (hmiddle : view.filter labels = .ok middle) (hresult : middle.filter more = .ok result) :
    view.Restricts (view.commonCarriers labels more) result ∧ result.Contract := by
  obtain ⟨hfirst, hkept⟩ := h.restricts_of_filter hmiddle
  obtain ⟨hsecond, hcontract⟩ := hkept.restricts_of_filter hresult
  have hboth := hfirst.trans hsecond
  rw [hfirst.nodesAt_carriers] at hboth
  exact ⟨hboth, hcontract⟩

/-- Views of the same data can be restricted to each other's nodes alike. -/
theorem Restricts.of_sameData (h : other.Restricts nodes result) (hsame : other.SameData view) :
    view.Restricts nodes result where
  sorted := h.sorted
  node_lt := hsame.nodeCount_eq ▸ h.node_lt
  nodeCount_eq := h.nodeCount_eq
  isUndirected_eq := h.isUndirected_eq.trans hsame.base.isUndirected_eq
  hasValues_eq := h.hasValues_eq.trans hsame.base.hasValues_eq
  labels_eq := h.labels_eq.trans (congrArg IdMap.labels hsame.base.ids_eq)
  original_eq := fun i node hi ↦ (h.original_eq i node hi).trans (hsame.original_eq node)
  node?_iff := by
    intro original i
    rw [h.node?_iff, hsame.node?_eq]
  hasLabel_eq := fun i node hi ↦ (h.hasLabel_eq i node hi).trans (funext (hsame.hasLabel_eq node))
  targets_eq := by
    intro i node hi
    rw [h.targets_eq i node hi, targets, hsame.reading_eq, targets]
  valuedTargets_eq := by
    intro i node hi fallback
    rw [h.valuedTargets_eq i node hi, valuedTargets, hsame.valueReading_eq, valuedTargets]
  columns_agree := by
    intro key
    have hcolumns := h.columns_agree key
    rwa [column?, hsame.columns_eq] at hcolumns

/-- A filter fails only for a label that no node of the graph carries. -/
theorem Contract.exists_filter_eq_ok_iff (h : view.Contract) :
    (∃ result, view.filter labels = .ok result) ↔ ∀ label ∈ labels, label ∈ view.labels := by
  obtain ⟨inner, columns, _, _, heq⟩ := h.filter_eq labels
  rw [heq]
  cases hfind : labels.find? fun label ↦ !view.labels.contains label with
  | some label =>
    refine ⟨nofun, fun hlabels ↦ ?_⟩
    have hunknown := List.find?_some hfind
    have hknown := hlabels label (List.mem_of_find?_eq_some hfind)
    simp [hknown] at hunknown
  | none =>
    refine ⟨fun _ label hlabel ↦ ?_, fun _ ↦ ⟨_, rfl⟩⟩
    simpa using List.find?_eq_none.mp hfind label hlabel

end

end View

/-- When a view of a built graph has been filtered twice, another view of the same data can be
filtered in the opposite order. Both results look alike, and both show the nodes that pass the two
filters, in their order in the view at the bottom. -/
theorem filters_commute {view other once twice : View} {labels more : List String}
    (h : view.OfBuiltGraph) (hother : other.SameData view) (honce : view.filter labels = .ok once)
    (htwice : once.filter more = .ok twice) :
    ∃ otherOnce otherTwice, other.filter more = .ok otherOnce ∧
      otherOnce.filter labels = .ok otherTwice ∧ twice.LooksLike otherTwice ∧
      view.Restricts (view.commonCarriers labels more) twice ∧
      view.Restricts (view.commonCarriers labels more) otherTwice := by
  have hcontract := h.contract
  have hothers := hcontract.of_sameData hother
  obtain ⟨hkept, hkeptContract⟩ := hcontract.restricts_of_filter honce
  have hlabels := hcontract.exists_filter_eq_ok_iff.mp ⟨once, honce⟩
  have hmore := hkeptContract.exists_filter_eq_ok_iff.mp ⟨twice, htwice⟩
  have hknown : other.labels = view.labels := congrArg IdMap.labels hother.base.ids_eq
  rw [hkept.labels_eq, ← hknown] at hmore
  rw [← hknown] at hlabels
  obtain ⟨otherOnce, hotherOnce⟩ := hothers.exists_filter_eq_ok_iff.mpr hmore
  obtain ⟨hotherKept, hotherKeptContract⟩ := hothers.restricts_of_filter hotherOnce
  rw [← hotherKept.labels_eq] at hlabels
  obtain ⟨otherTwice, hotherTwice⟩ := hotherKeptContract.exists_filter_eq_ok_iff.mpr hlabels
  obtain ⟨hresult, hresultContract⟩ := hcontract.restricts_of_filter_filter honce htwice
  obtain ⟨hopposite, hoppositeContract⟩ :=
    hothers.restricts_of_filter_filter hotherOnce hotherTwice
  rw [hother.commonCarriers_eq, View.commonCarriers_comm] at hopposite
  have hsecond := hopposite.of_sameData hother
  exact ⟨otherOnce, otherTwice, hotherOnce, hotherTwice,
    hresult.looksLike hsecond hresultContract hoppositeContract, hresult, hsecond⟩

/-- The calls for a triangle with parallel arcs and a loop, where one of the nodes gets two labels,
and each of the others gets one of them. -/
def sharedLabelCalls : List BuilderCall :=
  parallelCalls ++ [.addNode 5 ["Kept"], .addNode 7 ["Seen"], .addNode 9 ["Kept", "Seen"]]

theorem exists_hasLabel_sharedLabelCalls :
    ∃ node < (GraphBuilder.new.performAll sharedLabelCalls).nodeCount,
      (GraphBuilder.new.performAll sharedLabelCalls).ids.build.hasLabel node "Kept" = true ∧
      (GraphBuilder.new.performAll sharedLabelCalls).ids.build.hasLabel node "Seen" = true := by
  obtain ⟨kept, seen, hlabels, hkept, hseen⟩ : ∃ kept seen : Label,
      Label.ofNames ["Kept", "Seen"] = .ok [kept, seen] ∧ kept.name = "Kept" ∧
        seen.name = "Seen" :=
    ⟨⟨"Kept", by decide, by decide⟩, ⟨"Seen", by decide, by decide⟩, rfl, rfl, rfl⟩
  have hlast : GraphBuilder.new.performAll sharedLabelCalls =
      ((GraphBuilder.new.performAll
        (parallelCalls ++ [.addNode 5 ["Kept"], .addNode 7 ["Seen"]])).perform
          (.addNode 9 ["Kept", "Seen"])).2 := by
    rw [sharedLabelCalls, GraphBuilder.performAll, GraphBuilder.performAll, List.foldl_append,
      List.foldl_append]
    rfl
  have hvalid := GraphBuilder.valid_new.performAll
    (parallelCalls ++ [.addNode 5 ["Kept"], .addNode 7 ["Seen"]])
  rw [hlast]
  generalize GraphBuilder.new.performAll _ = builder at hvalid
  obtain ⟨node, hlt, hhas⟩ := exists_hasLabel_addNode hvalid 9 hlabels
  have hfirst := hhas kept List.mem_cons_self
  have hsecond := hhas seen (List.mem_cons_of_mem _ List.mem_cons_self)
  rw [hkept] at hfirst
  rw [hseen] at hsecond
  exact ⟨node, hlt, hfirst, hsecond⟩

theorem filters_of_shared_label_commute :
    ∃ view once twice other otherTwice : View, view.OfBuiltGraph ∧ view.SameData view ∧
      view.filter ["Kept"] = .ok once ∧ once.filter ["Seen"] = .ok twice ∧
      view.filter ["Seen"] = .ok other ∧ other.filter ["Kept"] = .ok otherTwice ∧
      twice.LooksLike otherTwice ∧ 0 < twice.nodeCount := by
  obtain ⟨graph, hcompress⟩ : ∃ graph,
      (GraphBuilder.new.performAll sharedLabelCalls).compress = .ok graph :=
    exists_compress_parallelCalls_append (by decide) (by decide)
  have hkey : ∀ k ∈ (none : Option String),
      k ∈ (GraphBuilder.new.performAll sharedLabelCalls).keys := nofun
  obtain ⟨packed, hbuilt, hshows⟩ := View.OfBuiltGraph.exists_of_compress hcompress hkey
  obtain ⟨node, hlt, hkept, hseen⟩ := exists_hasLabel_sharedLabelCalls
  rw [← hshows.ids_eq] at hkept hseen
  have hcontract := hbuilt.contract
  have hknown {label : String} (h : packed.ids.hasLabel node label = true) :
      ∀ name ∈ [label], name ∈ (View.packed packed).labels := fun name hname ↦
    List.mem_singleton.mp hname ▸ IdMap.mem_labels_of_hasLabel h
  obtain ⟨once, honce⟩ := hcontract.exists_filter_eq_ok_iff.mpr (hknown hkept)
  obtain ⟨hrestricts, honceContract⟩ := hcontract.restricts_of_filter honce
  obtain ⟨twice, htwice⟩ := honceContract.exists_filter_eq_ok_iff.mpr
    (hrestricts.labels_eq ▸ hknown hseen)
  obtain ⟨other, otherTwice, hother, hotherTwice, hlike, hshown, _⟩ :=
    filters_commute hbuilt (.refl (.packed packed)) honce htwice
  refine ⟨_, once, twice, other, otherTwice, hbuilt, .refl (.packed packed), honce, htwice, hother,
    hotherTwice, hlike, ?_⟩
  have hcarries {label : String} (h : packed.ids.hasLabel node label = true) :
      (View.packed packed).Carries [label] node :=
    ⟨label, List.mem_singleton_self label, by rw [View.hasLabel, h]⟩
  have hmem : node ∈ (View.packed packed).commonCarriers ["Kept"] ["Seen"] := by
    rw [View.commonCarriers, List.mem_filter, List.mem_range, decide_eq_true_eq]
    exact ⟨hshows.nodeCount_eq ▸ hlt, hcarries hkept, hcarries hseen⟩
  rw [hshown.nodeCount_eq]
  exact List.length_pos_of_mem hmem

end PackedGraph
