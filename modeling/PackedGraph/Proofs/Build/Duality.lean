import PackedGraph.Proofs.Build.ReferenceLists

/-!
# Lists of opposite orientations

An arc from `s` to `t` stands in the list of `s`, or in the list of `t` under the opposite
orientation. In both lists the arcs between `s` and `t` are in the order in which they were added,
since the sort is stable, so merging them gives the same values in the same order.
-/

namespace PackedGraph

/-- The orientation that lays out every arc the other way round. -/
def Orientation.opposite : Orientation → Orientation
  | natural => reverse
  | reverse => natural
  | undirected => undirected

namespace Arc

/-- Whether an arc leads from one node to another. -/
def joins (source target : Nat) (arc : Arc) : Bool := arc.source == source && arc.target == target

theorem joins_reversed (source target : Nat) (arc : Arc) :
    arc.reversed.joins target source = arc.joins source target := Bool.and_comm _ _

theorem not_joins_reversed {source target : Nat} (hne : source ≠ target) {arc : Arc}
    (h : arc.joins source target) : arc.joins target source = false := by
  rw [joins, Bool.and_eq_true, beq_iff_eq, beq_iff_eq] at h
  rw [joins, h.1, beq_eq_false_iff_ne.mpr hne, Bool.false_and]

end Arc

/-! ## Entries between two nodes -/

/-- The entries that lead from one node to another, in the order of the arcs. -/
def entriesBetween (orientation : Orientation) (arcs : List Arc) (source target : Nat) : List Arc :=
  (arcs.flatMap orientation.entries).filter (·.joins source target)

/-- The sort of a list keeps the order of parallel entries. -/
theorem filter_target_nodeEntries (orientation : Orientation) (arcs : List Arc)
    (source target : Nat) : (nodeEntries orientation arcs source).filter (·.target == target) =
      entriesBetween orientation arcs source target := by
  have htied (a b : Arc) (ha : a.target == target) (hb : b.target == target) :
      decide (a.target ≤ b.target) := by
    rw [beq_iff_eq] at ha hb
    rw [ha, hb, decide_eq_true_eq]
  rw [nodeEntries, filter_mergeSort_of_tied _ target_le_trans target_le_total htied,
    List.filter_filter]
  exact List.filter_congr fun arc _ ↦ Bool.and_comm _ _

/-- The entries of an arc under the opposite orientation are its entries the other way round. -/
theorem Orientation.filter_opposite_entries {orientation : Orientation} {source target : Nat}
    (hne : orientation = undirected → source ≠ target) (arc : Arc) :
    (orientation.opposite.entries arc).filter (·.joins target source) =
      ((orientation.entries arc).filter (·.joins source target)).map Arc.reversed := by
  have hreversed : arc.reversed.joins target source = arc.joins source target :=
    arc.joins_reversed source target
  have hforward : arc.reversed.joins source target = arc.joins target source :=
    arc.joins_reversed target source
  cases orientation with
  | natural =>
    simp only [opposite, entries, List.filter_singleton, hreversed]
    cases arc.joins source target <;> rfl
  | reverse =>
    simp only [opposite, entries, List.filter_singleton, hforward]
    cases arc.joins target source <;> rfl
  | undirected =>
    -- an arc between two different nodes leads only one way, so the order in a pair is no matter
    have honce : ¬ (arc.joins source target ∧ arc.joins target source) := fun h ↦
      Bool.eq_false_iff.mp (Arc.not_joins_reversed (hne rfl) h.1) h.2
    simp only [opposite, entries, List.filter_cons, List.filter_nil, hreversed, hforward]
    cases hst : arc.joins source target <;> cases hts : arc.joins target source
    · rfl
    · rfl
    · rfl
    · exact absurd ⟨hst, hts⟩ honce

/-- The entries from `t` to `s` under the opposite orientation are those from `s` to `t`, in the
same order. -/
theorem entriesBetween_opposite {orientation : Orientation} {source target : Nat}
    (hne : orientation = .undirected → source ≠ target) (arcs : List Arc) :
    entriesBetween orientation.opposite arcs target source =
      (entriesBetween orientation arcs source target).map Arc.reversed := by
  rw [entriesBetween, entriesBetween, List.filter_flatMap, List.filter_flatMap, List.map_flatMap]
  congr 1
  funext arc
  exact Orientation.filter_opposite_entries hne arc

/-! ## Runs between two nodes -/

/-- What becomes of parallel arcs: each is a run of its own, or all of them are one run. -/
def Aggregation.bundles (aggregation : Aggregation) (arcs : List Arc) : List (List Arc) :=
  match aggregation with
  | keepAll => arcs.map fun arc ↦ [arc]
  | _ => [arcs].filter (· ≠ [])

theorem Aggregation.bundles_map (aggregation : Aggregation) (f : Arc → Arc) (arcs : List Arc) :
    aggregation.bundles (arcs.map f) = (aggregation.bundles arcs).map (List.map f) := by
  cases aggregation with
  | keepAll => simp [bundles]
  | single | sum | min | max | count => cases arcs <;> rfl

/-- In sorted entries each target has at most one run. -/
theorem GroupedAs.pairwise_target_lt {entries : List Arc} {runs : List Run}
    (h : GroupedAs entries runs)
    (hsorted : entries.Pairwise fun a b ↦ a.target ≤ b.target) :
    runs.Pairwise fun a b ↦ a.target < b.target := by
  have hle : runs.Pairwise fun a b ↦ a.target ≤ b.target := by
    have htargets := targets_sublist_flatten h.ne_nil h.target_eq
    rw [h.flatten_eq] at htargets
    exact List.pairwise_map.mp ((List.pairwise_map.mpr hsorted).sublist htargets)
  have hlt : runs.IsChain fun a b ↦ a.target < b.target :=
    List.isChain_iff_getElem.mpr fun i hi ↦
      lt_of_le_of_ne (List.isChain_iff_getElem.mp hle.isChain i hi)
        (List.isChain_iff_getElem.mp h.chain i hi)
  exact List.isChain_iff_pairwise.mp hlt

theorem filter_target_eq_nil {target : Nat} {runs : List Run}
    (htarget : ∀ run ∈ runs, ∀ arc ∈ run.arcs, arc.target = run.target)
    (hother : ∀ run ∈ runs, run.target ≠ target) :
    (runs.map Run.arcs).flatten.filter (·.target == target) = [] := by
  rw [List.filter_eq_nil_iff]
  intro arc harc
  obtain ⟨arcs, harcs, harc⟩ := List.mem_flatten.mp harc
  obtain ⟨run, hrun, rfl⟩ := List.mem_map.mp harcs
  rw [htarget run hrun arc harc, beq_iff_eq]
  exact hother run hrun

/-- The run of a target consists of all entries with this target. -/
theorem filter_target_eq (target : Nat) {runs : List Run} (hne : ∀ run ∈ runs, run.arcs ≠ [])
    (htarget : ∀ run ∈ runs, ∀ arc ∈ run.arcs, arc.target = run.target)
    (hsorted : runs.Pairwise fun a b ↦ a.target < b.target) :
    (runs.filter (·.target == target)).map Run.arcs =
      ([(runs.map Run.arcs).flatten.filter (·.target == target)].filter (· ≠ [])) := by
  induction runs with
  | nil => rfl
  | cons run runs ih =>
    rw [List.forall_mem_cons] at hne htarget
    rw [List.pairwise_cons] at hsorted
    rw [List.map_cons, List.flatten_cons, List.filter_append]
    by_cases heq : run.target = target
    · have hown : run.arcs.filter (·.target == target) = run.arcs :=
        List.filter_eq_self.mpr fun arc harc ↦ by rw [htarget.1 arc harc, heq, beq_self_eq_true]
      have hothers : ∀ other ∈ runs, other.target ≠ target := fun other hother ↦
        heq ▸ (hsorted.1 other hother).ne'
      have hnone : runs.filter (·.target == target) = [] :=
        List.filter_eq_nil_iff.mpr fun other hother ↦ by simpa using hothers other hother
      rw [List.filter_cons_of_pos (by simpa using heq), hown, hnone,
        filter_target_eq_nil htarget.2 hothers, List.append_nil]
      simp [hne.1]
    · have hown : run.arcs.filter (·.target == target) = [] :=
        List.filter_eq_nil_iff.mpr fun arc harc ↦ by simpa [htarget.1 arc harc] using heq
      rw [List.filter_cons_of_neg (by simpa using heq), hown, List.nil_append]
      exact ih hne.2 htarget.2 hsorted.2

theorem Aggregation.filter_target_runs (aggregation : Aggregation) {entries : List Arc}
    (hsorted : entries.Pairwise fun a b ↦ a.target ≤ b.target) (target : Nat) :
    ((aggregation.runs entries).filter (·.target == target)).map Run.arcs =
      aggregation.bundles (entries.filter (·.target == target)) := by
  have hgrouped := groupedAs_group entries
  have hgroup : ((Run.group entries).filter (·.target == target)).map Run.arcs =
      [entries.filter (·.target == target)].filter (· ≠ []) := by
    have heq := filter_target_eq target hgrouped.ne_nil hgrouped.target_eq
      (hgrouped.pairwise_target_lt hsorted)
    rwa [hgrouped.flatten_eq] at heq
  cases aggregation with
  | keepAll =>
    rw [runs, bundles, List.filter_map, List.map_map]
    rfl
  | single | sum | min | max | count => exact hgroup

/-- The runs between two nodes are the bundles of the entries between them. -/
theorem filter_target_referenceRuns (orientation : Orientation) (aggregation : Aggregation)
    (arcs : List Arc) (source target : Nat) :
    ((referenceRuns orientation aggregation arcs source).filter (·.target == target)).map Run.arcs =
      aggregation.bundles (entriesBetween orientation arcs source target) := by
  have hsorted : (nodeEntries orientation arcs source).Pairwise fun a b ↦ a.target ≤ b.target :=
    pairwise_target_mergeSort _
  rw [referenceRuns, aggregation.filter_target_runs hsorted, filter_target_nodeEntries]

/-- The runs from `t` to `s` under the opposite orientation are those from `s` to `t`, in the same
order and with their arcs in the same order. -/
theorem filter_opposite_referenceRuns {orientation : Orientation} {source target : Nat}
    (hne : orientation = .undirected → source ≠ target) (aggregation : Aggregation)
    (arcs : List Arc) :
    ((referenceRuns orientation.opposite aggregation arcs target).filter
      (·.target == source)).map Run.arcs =
      (((referenceRuns orientation aggregation arcs source).filter (·.target == target)).map
        Run.arcs).map (List.map Arc.reversed) := by
  rw [filter_target_referenceRuns, filter_target_referenceRuns, entriesBetween_opposite hne,
    aggregation.bundles_map]

end PackedGraph
