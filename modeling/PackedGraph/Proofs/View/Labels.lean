import PackedGraph.Proofs.Build.ReadBack
import PackedGraph.Proofs.View.Commutation

/-!
# The labels of a view

A filter accepts the labels of the packed view below all filters. Each of them is carried by some
node there, and so is every label of a node of the filtered view. That a label is accepted does not
mean that a node of the filtered view carries it.
-/

namespace PackedGraph

namespace View

variable {view : View} {label : String} {labels : List String}

/-- Some node of a view carries a label. -/
def HasCarrier (view : View) (label : String) : Prop :=
  ∃ node < view.nodeCount, view.hasLabel node label = .ok true

theorem mem_labels_of_hasLabel {node : Nat} (h : view.hasLabel node label = .ok true) :
    label ∈ view.labels := by
  induction view generalizing node with
  | packed view => exact IdMap.mem_labels_of_hasLabel (Except.ok.inj h)
  | filtered inner filter ih =>
    obtain ⟨root, _, hroot⟩ := exists_of_bind_eq_ok h
    exact ih hroot

theorem Contract.base_ids_of_filter {result : View} (h : view.Contract)
    (hresult : view.filter labels = .ok result) : result.base.ids = view.base.ids := by
  obtain ⟨inner, filter, rfl, hinduces, _⟩ := h.exists_of_filter hresult
  exact (SameData.of_fresh hinduces.inner_fresh).base.ids_eq

/-- The id map below all filters gives back the nodes and labels that some calls have brought. -/
theorem OfBuiltGraph.exists_readsBack (h : view.OfBuiltGraph) :
    ∃ mentioned labelled, view.base.ids.ReadsBack mentioned labelled := by
  induction h with
  | @opened calls graph store memory after now later key view hcompress hstore honly hview =>
    have hvalid := GraphBuilder.valid_new.performAll calls
    have hkeeps := (hvalid.stores_of_compress hcompress).keeps_of_run_toStore hstore
    obtain ⟨packed, position, rfl, hshows, _⟩ := hkeeps.shows_of_run_view honly hview
    rw [base, hshows.ids_eq]
    exact ⟨_, _, GraphBuilder.readsBack_performAll calls⟩
  | sameData _ hsame ih =>
    rw [hsame.base.ids_eq]
    exact ih
  | filtered hview hresult ih =>
    rw [hview.contract.base_ids_of_filter hresult]
    exact ih

theorem OfBuiltGraph.mem_labels_iff (h : view.OfBuiltGraph) :
    label ∈ view.labels ↔ (packed view.base).HasCarrier label := by
  obtain ⟨mentioned, labelled, hids⟩ := h.exists_readsBack
  rw [labels, hids.mem_labels_iff]
  apply exists_congr
  intro node
  rw [nodeCount, hasLabel, Except.ok.injEq]

/-- A filter refuses the first label that the view does not have, and fails for no other reason. -/
theorem Contract.filter_eq_error_iff (h : view.Contract) {error : ViewError} :
    view.filter labels = .error error ↔ ∃ before label after, labels = before ++ label :: after ∧
      (∀ known ∈ before, known ∈ view.labels) ∧ label ∉ view.labels ∧
      error = .unknownLabel label := by
  obtain ⟨inner, columns, _, _, heq⟩ := h.filter_eq labels
  rw [heq]
  constructor
  · intro herror
    cases hfind : labels.find? fun label ↦ !view.labels.contains label with
    | none =>
      rw [hfind] at herror
      exact nomatch herror
    | some label =>
      rw [hfind] at herror
      obtain ⟨hunknown, before, after, hsplit, hknown⟩ := List.find?_eq_some_iff_append.mp hfind
      refine ⟨before, label, after, hsplit, fun known hmem ↦ ?_, ?_,
        (Except.error.inj herror).symm⟩
      · simpa using hknown known hmem
      · simpa using hunknown
  · rintro ⟨before, label, after, hsplit, hknown, hunknown, rfl⟩
    have hfind : labels.find? (fun label ↦ !view.labels.contains label) = some label := by
      refine List.find?_eq_some_iff_append.mpr ⟨?_, before, after, hsplit, fun known hmem ↦ ?_⟩
      · simpa using hunknown
      · simpa using hknown known hmem
    rw [hfind]

end View

/-- The labels of a view, in order and without repeats, are those that some node of the packed view
below all filters carries. They comprise the labels of the nodes of the view, and for a packed view
they are these labels. A filter refuses the first label that no node of the packed view carries, and
fails for no other reason. -/
theorem labels_are_checked_below_all_filters (view : View) (labels : List String)
    (h : view.OfBuiltGraph) :
    let bottom := View.packed view.base
    view.labels.Pairwise (· < ·) ∧
    (∀ label, label ∈ view.labels ↔ bottom.HasCarrier label) ∧
    (∀ label, view.HasCarrier label → bottom.HasCarrier label) ∧
    ((∃ result, view.filter labels = .ok result) ↔ ∀ label ∈ labels, bottom.HasCarrier label) ∧
    ∀ error, view.filter labels = .error error ↔
      ∃ before label after, labels = before ++ label :: after ∧
        (∀ known ∈ before, bottom.HasCarrier known) ∧ ¬ bottom.HasCarrier label ∧
        error = .unknownLabel label := by
  intro bottom
  have hlabels (label : String) : label ∈ view.labels ↔ bottom.HasCarrier label := h.mem_labels_iff
  refine ⟨view.base.ids.labels_increasing, hlabels, fun label hcarrier ↦ ?_, ?_, fun error ↦ ?_⟩
  · obtain ⟨node, _, hhas⟩ := hcarrier
    exact (hlabels label).mp (View.mem_labels_of_hasLabel hhas)
  · rw [h.contract.exists_filter_eq_ok_iff]
    simp only [hlabels]
  · rw [h.contract.filter_eq_error_iff]
    simp only [hlabels]

/-- The calls for two nodes without a common label. -/
def parityCalls : List BuilderCall := [.addNode 4 ["Even"], .addNode 7 ["Odd"]]

theorem acceptedCalls_parityCalls : GraphBuilder.new.acceptedCalls parityCalls = parityCalls := by
  obtain ⟨even, heven⟩ : ∃ even, Label.ofNames ["Even"] = .ok even := ⟨_, rfl⟩
  obtain ⟨odd, hodd⟩ : ∃ odd, Label.ofNames ["Odd"] = .ok odd := ⟨_, rfl⟩
  simp only [parityCalls, GraphBuilder.acceptedCalls, GraphBuilder.perform, BuilderCall.toCall,
    run_map, GraphBuilder.run_addNode, heven, hodd]
  rfl

theorem exists_view_of_parityCalls :
    ∃ packed : PackedView, (View.packed packed).OfBuiltGraph ∧
      packed.ids.ReadsBack [4, 7] [(4, "Even"), (7, "Odd")] := by
  obtain ⟨graph, hcompress⟩ : ∃ graph,
      (GraphBuilder.new.performAll parityCalls).compress = .ok graph :=
    GraphBuilder.exists_compress_of_isData (by decide) (by decide)
  have hkey : ∀ k ∈ (none : Option String), k ∈ (GraphBuilder.new.performAll parityCalls).keys :=
    nofun
  obtain ⟨packed, hbuilt, hshows⟩ := View.OfBuiltGraph.exists_of_compress hcompress hkey
  have hids := GraphBuilder.readsBack_performAll parityCalls
  rw [acceptedCalls_parityCalls, ← hshows.ids_eq] at hids
  exact ⟨packed, hbuilt, hids⟩

theorem mem_labels_parityCalls_iff {packed : PackedView} {label : String}
    (h : packed.ids.ReadsBack [4, 7] [(4, "Even"), (7, "Odd")]) :
    label ∈ packed.ids.labels ↔ label = "Even" ∨ label = "Odd" := by
  have hcount : packed.ids.nodeCount = 2 := h.nodeCount_eq
  have hfirst : packed.ids.original 0 = .ok 4 := (h.original_eq_iff 0 4).mpr rfl
  have hsecond : packed.ids.original 1 = .ok 7 := (h.original_eq_iff 1 7).mpr rfl
  rw [h.mem_labels_iff]
  constructor
  · rintro ⟨node, _, hhas⟩
    obtain ⟨original, _, hmem⟩ := (h.hasLabel_iff node label).mp hhas
    simp only [List.mem_cons, Prod.mk.injEq, List.not_mem_nil, or_false] at hmem
    exact hmem.imp And.right And.right
  · rintro (rfl | rfl)
    · exact ⟨0, by omega, (h.hasLabel_iff 0 "Even").mpr ⟨4, hfirst, by decide⟩⟩
    · exact ⟨1, by omega, (h.hasLabel_iff 1 "Odd").mpr ⟨7, hsecond, by decide⟩⟩

theorem labels_of_parities_are_checked_below_all_filters :
    ∃ view once : View, view.OfBuiltGraph ∧ view.filter ["Even"] = .ok once ∧ once.OfBuiltGraph ∧
      once.filter ["Odd", "Prime"] = .error (.unknownLabel "Prime") := by
  obtain ⟨packed, hbuilt, hids⟩ := exists_view_of_parityCalls
  obtain ⟨_, hlabels, _, hsucceeds, _⟩ :=
    labels_are_checked_below_all_filters (.packed packed) ["Even"] hbuilt
  obtain ⟨once, honce⟩ := hsucceeds.mpr fun label hlabel ↦
    (hlabels label).mp ((mem_labels_parityCalls_iff hids).mpr (.inl (List.mem_singleton.mp hlabel)))
  have hfiltered := hbuilt.filtered honce
  obtain ⟨_, hbelow, _, _, hfails⟩ :=
    labels_are_checked_below_all_filters once ["Odd", "Prime"] hfiltered
  have hknown (label : String) : label ∈ once.labels ↔ label = "Even" ∨ label = "Odd" := by
    rw [View.labels, hbuilt.contract.base_ids_of_filter honce]
    exact mem_labels_parityCalls_iff hids
  simp only [← hbelow, hknown] at hfails
  exact ⟨_, once, hbuilt, honce, hfiltered, (hfails _).mpr
    ⟨["Odd"], "Prime", [], rfl, by simp, by decide, rfl⟩⟩

/-- A label that no node of a filtered view carries is accepted if some node below does. -/
theorem a_label_without_carrier_is_accepted :
    ∃ view once result : View, view.OfBuiltGraph ∧ view.filter ["Even"] = .ok once ∧
      "Odd" ∈ once.labels ∧ ¬ once.HasCarrier "Odd" ∧ once.filter ["Odd"] = .ok result := by
  obtain ⟨packed, hbuilt, hids⟩ := exists_view_of_parityCalls
  have hcontract := hbuilt.contract
  have hlabels (label : String) (h : label = "Even" ∨ label = "Odd") :
      label ∈ (View.packed packed).labels := (mem_labels_parityCalls_iff hids).mpr h
  obtain ⟨once, honce⟩ := hcontract.exists_filter_eq_ok_iff.mpr fun label hlabel ↦
    hlabels label (.inl (List.mem_singleton.mp hlabel))
  obtain ⟨inner, filter, rfl, hinduces, honceContract⟩ := hcontract.exists_of_filter honce
  have hodd : "Odd" ∈ (View.filtered inner filter).labels := by
    rw [View.labels, hcontract.base_ids_of_filter honce]
    exact hlabels "Odd" (.inr rfl)
  obtain ⟨result, hresult⟩ := honceContract.exists_filter_eq_ok_iff.mpr fun label hlabel ↦
    List.mem_singleton.mp hlabel ▸ hodd
  refine ⟨_, _, result, hbuilt, honce, hodd, ?_, hresult⟩
  rintro ⟨node, hnode, hhas⟩
  obtain ⟨root, hroot⟩ := (hinduces.root_iff node).mpr hnode
  rw [hinduces.hasLabel_eq node root hroot] at hhas
  obtain ⟨_, label, hlabel, heven⟩ := (hinduces.exists_root_iff root).mp ⟨node, hroot⟩
  obtain rfl := List.mem_singleton.mp hlabel
  obtain ⟨original, horiginal, hmem⟩ :=
    (hids.hasLabel_iff root "Odd").mp (Except.ok.inj hhas)
  obtain ⟨other, hother, hmemOther⟩ :=
    (hids.hasLabel_iff root "Even").mp (Except.ok.inj heven)
  obtain rfl := Except.ok.inj (horiginal.symm.trans hother)
  have hseven : original = 7 := by simpa using hmem
  have hfour : original = 4 := by simpa using hmemOther
  exact absurd (hseven.symm.trans hfour) (by decide)

end PackedGraph
