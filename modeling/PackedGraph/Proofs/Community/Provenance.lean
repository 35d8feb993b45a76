import Mathlib
import PackedGraph.Proofs.Community.Countable
import PackedGraph.Proofs.Community.Tally

/-!
# Where labels come from

Labels travel against no relationship: a node takes the label of one of its targets, whichever
buffer the label is read from, so it inherits the initial label of a node that it reaches. Initial
labels are the seeds, and labels above all seeds that no two nodes share.
-/

namespace PackedGraph

/-! ## Inherited labels -/

/-- Every node has the initial label of a node to which it leads. -/
def Inherits (leads : Nat → Nat → Prop) (initial labels : Array UInt64) : Prop :=
  ∀ node label, labels[node]? = some label →
    ∃ source, Relation.ReflTransGen leads node source ∧ initial[source]? = some label

section Inherits

variable {leads : Nat → Nat → Prop} {initial old labels : Array UInt64}
variable {votes : Nat → List (Nat × Float)} {ranges : List NodeRange}

theorem Inherits.refl : Inherits leads initial initial :=
  fun node _ hlabel ↦ ⟨node, .refl, hlabel⟩

/-- The label of a node may be replaced by one that a target has. -/
theorem Inherits.labelSeen (hold : Inherits leads initial old)
    (hlabels : Inherits leads initial labels) (range : NodeRange) {node target : Nat}
    (hlead : leads node target) (htargetOld : target < old.size) (htarget : target < labels.size) :
    ∃ source, Relation.ReflTransGen leads node source ∧
      initial[source]? = some (range.labelSeen old labels target) := by
  have hseen : old[target]? = some (range.labelSeen old labels target) ∨
      labels[target]? = some (range.labelSeen old labels target) := by
    unfold NodeRange.labelSeen
    by_cases hin : range.contains target
    · rw [if_pos hin]
      exact .inr (getElem?_eq_some_getD htarget)
    · rw [if_neg hin]
      exact .inl (getElem?_eq_some_getD htargetOld)
  obtain ⟨source, hreach, hsource⟩ := hseen.elim (hold target _) (hlabels target _)
  exact ⟨source, .head hlead hreach, hsource⟩

/-- What a node adopts is inherited, whichever of the two labellings a vote is taken from. -/
theorem Inherits.adopt (hold : Inherits leads initial old) (hlabels : Inherits leads initial labels)
    (hsize : labels.size = old.size)
    (hvotes : ∀ node < old.size, ∀ vote ∈ votes node, vote.1 < old.size ∧ leads node vote.1)
    (range : NodeRange) (node : Nat) :
    Inherits leads initial (adopt votes range old labels node) := by
  intro cell label hlabel
  rw [PackedGraph.adopt, getElem?_setIfInBounds_eq] at hlabel
  split_ifs at hlabel with hcell
  · subst hcell
    obtain ⟨current, hcurrent, rfl⟩ := Option.map_eq_some_iff.mp hlabel
    have hnode : cell < old.size := hsize ▸ (Array.getElem?_eq_some_iff.mp hcurrent).1
    rcases (range.tally old labels (votes cell)).winner_eq_or_mem (labels.getD cell 0) with
      hkept | hvoted
    · rw [hkept]
      exact hlabels cell _ (getElem?_eq_some_getD (hsize ▸ hnode))
    · obtain ⟨vote, hvote, hseen⟩ :=
        (VoteTally.mem_labels_foldl_vote.mp hvoted).resolve_left List.not_mem_nil
      obtain ⟨htarget, hlead⟩ := hvotes cell hnode vote hvote
      rw [← hseen]
      exact hold.labelSeen hlabels range hlead htarget (hsize ▸ htarget)
  · exact hlabels cell label hlabel

/-- Sweeps hand labels on along relationships only. -/
theorem Inherits.iterate
    (hvotes : ∀ node < initial.size, ∀ vote ∈ votes node, vote.1 < initial.size ∧ leads node vote.1)
    (k : Nat) : Inherits leads initial ((sweepLabels votes ranges)^[k] initial) := by
  induction k with
  | zero => exact .refl
  | succ k ih =>
    rw [Function.iterate_succ_apply']
    have hsize : ((sweepLabels votes ranges)^[k] initial).size = initial.size :=
      size_iterate_sweepLabels k
    generalize (sweepLabels votes ranges)^[k] initial = old at ih hsize
    rw [← hsize] at hvotes
    refine (sweepLabels_induction (motive := fun labels ↦
      labels.size = old.size ∧ Inherits leads initial labels) ⟨rfl, ih⟩ ?_).2
    rintro range labels node ⟨hlabelsSize, hlabels⟩
    exact ⟨Array.size_setIfInBounds.trans hlabelsSize,
      ih.adopt hlabels hlabelsSize hvotes range node⟩

end Inherits

/-! ## Initial labels -/

namespace LabelPropagation

/-- The first label above all seeds. -/
def firstFresh (seeds : List (Option Nat)) : Nat := (seeds.filterMap (·.map (· + 1))).foldl max 0

theorem foldl_max_le_iff {l : List Nat} {start bound : Nat} :
    l.foldl max start ≤ bound ↔ start ≤ bound ∧ ∀ value ∈ l, value ≤ bound := by
  induction l generalizing start with
  | nil => simp
  | cons value l ih =>
    rw [List.foldl_cons, ih, List.forall_mem_cons, max_le_iff, and_assoc]

theorem firstFresh_le_iff {seeds : List (Option Nat)} {bound : Nat} :
    firstFresh seeds ≤ bound ↔ ∀ seed, some seed ∈ seeds → seed < bound := by
  have hmem (value : Nat) :
      value ∈ seeds.filterMap (·.map (· + 1)) ↔ ∃ seed, some seed ∈ seeds ∧ seed + 1 = value := by
    simp [List.mem_filterMap]
  rw [firstFresh, foldl_max_le_iff]
  constructor
  · intro h seed hseed
    exact h.2 (seed + 1) ((hmem _).mpr ⟨seed, hseed, rfl⟩)
  · intro h
    refine ⟨Nat.zero_le bound, fun value hvalue ↦ ?_⟩
    obtain ⟨seed, hseed, rfl⟩ := (hmem value).mp hvalue
    exact h seed hseed

theorem getElem?_seedLabels (seeds : List (Option Nat)) (node : Nat) :
    (seedLabels seeds)[node]? =
      seeds[node]?.map fun seed ↦ UInt64.ofNat (seed.getD (firstFresh seeds + node)) := by
  simp [seedLabels, firstFresh]
  rfl

variable {propagation : LabelPropagation}

/-- The seed of a node, if it has one. -/
def seed? (propagation : LabelPropagation) (node : Nat) : Option Int :=
  match propagation.seedKey with
  | none => none
  | some key => (propagation.view.columnFor .seed key).toOption.bind fun column ↦
    (column.longValue node).toOption.join

theorem readSeeds_eq {column : Column} {nodes : List Nat} {seeds : List (Option Nat)}
    (h : readSeeds column nodes = .ok seeds) :
    seeds = nodes.map (fun node ↦ (column.longValue node).toOption.join.map Int.toNat) ∧
      ∀ node ∈ nodes, ∀ seed, (column.longValue node).toOption.join = some seed → 0 ≤ seed := by
  induction nodes generalizing seeds with
  | nil => exact ⟨(Except.ok.inj h).symm, nofun⟩
  | cons node nodes ih =>
    have hcons {seed : Option Nat}
        (hrest : (do return seed :: (← readSeeds column nodes)) = Except.ok seeds) :
        seeds = seed :: nodes.map (fun node ↦ (column.longValue node).toOption.join.map Int.toNat) ∧
          ∀ node ∈ nodes, ∀ seed, (column.longValue node).toOption.join = some seed → 0 ≤ seed := by
      obtain ⟨others, hothers, hseeds⟩ := exists_of_bind_eq_ok hrest
      obtain ⟨rfl, hsigns⟩ := ih hothers
      exact ⟨(Except.ok.inj hseeds).symm, hsigns⟩
    rw [readSeeds] at h
    rw [List.map_cons, List.forall_mem_cons]
    rcases hvalue : column.longValue node with fault | _ | value
    · rw [hvalue] at h
      cases h
    · rw [hvalue] at h
      obtain ⟨hseeds, hsigns⟩ := hcons h
      refine ⟨hseeds, ?_, hsigns⟩
      rintro _ ⟨⟩
    · simp only [hvalue] at h
      split_ifs at h with hsign
      · cases h
      · obtain ⟨hseeds, hsigns⟩ := hcons h
        refine ⟨hseeds, ?_, hsigns⟩
        rintro _ ⟨⟩
        exact Int.not_lt.mp hsign

theorem initialLabels_eq {initial : Array UInt64} (h : propagation.initialLabels = .ok initial) :
    initial = seedLabels ((List.range propagation.view.nodeCount).map fun node ↦
      (propagation.seed? node).map Int.toNat) ∧
      ∀ node < propagation.view.nodeCount, ∀ seed, propagation.seed? node = some seed →
        0 ≤ seed := by
  unfold initialLabels at h
  unfold seed?
  cases hkey : propagation.seedKey with
  | none =>
    simp only [hkey] at h
    refine ⟨?_, nofun⟩
    rw [← Except.ok.inj h]
    apply Array.ext_getElem?
    intro node
    by_cases hnode : node < propagation.view.nodeCount <;>
      simp [getElem?_seedLabels, firstFresh, hnode]
  | some key =>
    simp only [hkey] at h
    obtain ⟨column, hcolumn, hread⟩ := exists_of_bind_eq_ok h
    obtain ⟨seeds, hseeds, hlabels⟩ := exists_of_bind_eq_ok hread
    obtain ⟨rfl, hsigns⟩ := readSeeds_eq hseeds
    simp only [eq_ok_of_mapError_eq_ok hcolumn, Except.toOption, Option.bind_some]
    exact ⟨(Except.ok.inj hlabels).symm,
      fun node hnode ↦ hsigns node (List.mem_range.mpr hnode)⟩

/-- The initial label of a node with a seed. -/
theorem toNat_initialLabels_of_seed {initial : Array UInt64}
    (h : propagation.initialLabels = .ok initial)
    (hseeds : ∀ node < propagation.view.nodeCount, ∀ seed, propagation.seed? node = some seed →
      seed < 2 ^ 63)
    {node : Nat} (hnode : node < propagation.view.nodeCount) {seed : Int}
    (hseed : propagation.seed? node = some seed) : ((initial.getD node 0).toNat : Int) = seed := by
  obtain ⟨rfl, hsigns⟩ := initialLabels_eq h
  have hsign := hsigns node hnode seed hseed
  have hbound := hseeds node hnode seed hseed
  have hsize : seed.toNat < UInt64.size := by
    have hlt : seed < UInt64.size := lt_trans hbound (by decide)
    omega
  rw [Array.getD_eq_getD_getElem?, getElem?_seedLabels, List.getElem?_map,
    List.getElem?_range hnode, Option.map_some, Option.map_some, hseed, Option.map_some,
    Option.getD_some, Option.getD_some, UInt64.toNat_ofNat_of_lt' hsize]
  exact Int.toNat_of_nonneg hsign

/-- The initial labels of the nodes without a seed are counted on from the first label above all
seeds, and fit into 64 bits. -/
theorem exists_fresh {initial : Array UInt64} (h : propagation.initialLabels = .ok initial)
    (hcount : propagation.view.nodeCount ≤ 2 ^ 63)
    (hseeds : ∀ node < propagation.view.nodeCount, ∀ seed, propagation.seed? node = some seed →
      seed < 2 ^ 63) :
    ∃ fresh : Nat,
      (∀ node < propagation.view.nodeCount, ∀ seed, propagation.seed? node = some seed →
        seed < fresh) ∧
      ∀ node < propagation.view.nodeCount, propagation.seed? node = none →
        fresh + node < 2 ^ 64 ∧ (initial.getD node 0).toNat = fresh + node := by
  obtain ⟨rfl, hsigns⟩ := initialLabels_eq h
  generalize hlist : ((List.range propagation.view.nodeCount).map fun node ↦
    (propagation.seed? node).map Int.toNat) = seeds
  have hmem (seed : Nat) : some seed ∈ seeds ↔
      ∃ node < propagation.view.nodeCount, (propagation.seed? node).map Int.toNat = some seed := by
    simp [← hlist]
  have habove : ∀ seed, some seed ∈ seeds → seed < firstFresh seeds :=
    firstFresh_le_iff.mp le_rfl
  have hbelow : firstFresh seeds ≤ 2 ^ 63 := by
    refine firstFresh_le_iff.mpr fun seed hseed ↦ ?_
    obtain ⟨node, hnode, heq⟩ := (hmem seed).mp hseed
    obtain ⟨value, hvalue, rfl⟩ := Option.map_eq_some_iff.mp heq
    have hsign := hsigns node hnode value hvalue
    have hbound := hseeds node hnode value hvalue
    omega
  refine ⟨firstFresh seeds, fun node hnode seed hseed ↦ ?_, fun node hnode hnone ↦ ?_⟩
  · have hlt := habove seed.toNat ((hmem _).mpr ⟨node, hnode, by rw [hseed, Option.map_some]⟩)
    have hsign := hsigns node hnode seed hseed
    omega
  · have hlt : firstFresh seeds + node < 2 ^ 64 := by omega
    refine ⟨hlt, ?_⟩
    rw [Array.getD_eq_getD_getElem?, getElem?_seedLabels, ← hlist, List.getElem?_map,
      List.getElem?_range hnode, Option.map_some, Option.map_some, hnone, Option.map_none,
      Option.getD_none, Option.getD_some, hlist, UInt64.toNat_ofNat_of_lt' hlt]

end LabelPropagation

/-- After a successful run, the label of a node is the initial label of a node that it reaches along
relationships. The initial labels are the seeds of the nodes with a seed, and labels above all seeds
for the other ones, which are pairwise different and counted without an overflow. -/
theorem labels_come_from_reachable_nodes {propagation after : LabelPropagation}
    {stops : Nat → Bool} (h : propagation.run stops = (after, .ok ()))
    (hcount : propagation.view.nodeCount ≤ 2 ^ 63)
    (hseeds : ∀ node < propagation.view.nodeCount, ∀ seed, propagation.seed? node = some seed →
      seed < 2 ^ 63) :
    let count := propagation.view.nodeCount
    ∃ initial, propagation.initialLabels = .ok initial ∧
      initial.size = count ∧ after.labels.size = count ∧
      (∀ node < count, ∃ source < count,
        Relation.ReflTransGen (fun node target ↦ target ∈ propagation.view.targets node)
          node source ∧ after.labels[node]? = initial[source]?) ∧
      (∀ node < count, ∀ seed, propagation.seed? node = some seed →
        ((initial.getD node 0).toNat : Int) = seed) ∧
      ∃ fresh : Nat, ∀ node < count, propagation.seed? node = none →
        (initial.getD node 0).toNat = fresh + node ∧ fresh + node < 2 ^ 64 ∧
        (∀ other < count, ∀ seed, propagation.seed? other = some seed →
          initial.getD other 0 < initial.getD node 0) ∧
        ∀ other < count, propagation.seed? other = none → other ≠ node →
          initial.getD other 0 ≠ initial.getD node 0 := by
  intro count
  obtain ⟨nodeWeights, initial, ranges, _, hinitial, _, hlabels, _, hcountable⟩ :=
    LabelPropagation.exists_iterate_of_run h
  have hsize := LabelPropagation.size_initialLabels hinitial
  have hseeded {node : Nat} (hnode : node < count) {seed : Int}
      (hseed : propagation.seed? node = some seed) : ((initial.getD node 0).toNat : Int) = seed :=
    LabelPropagation.toNat_initialLabels_of_seed hinitial hseeds hnode hseed
  obtain ⟨fresh, habove, hfresh⟩ := LabelPropagation.exists_fresh hinitial hcount hseeds
  have hlabelsSize : after.labels.size = count := by
    rw [hlabels, size_iterate_sweepLabels, hsize]
  refine ⟨initial, hinitial, hsize, hlabelsSize, ?_, fun node hnode seed ↦ hseeded hnode,
    fresh, fun node hnode hnone ↦ ?_⟩
  · have hinherits : Inherits (fun node target ↦ target ∈ propagation.view.targets node) initial
        after.labels := by
      by_cases hnone : after.iterations = 0
      · rw [hlabels, hnone]
        exact .refl
      · rw [hlabels]
        refine .iterate (fun node hnode vote hvote ↦ ?_) _
        rw [hsize] at hnode ⊢
        have htargets := (hcountable hnone node hnode).map_fst_votes
        obtain ⟨pair, hpair, rfl⟩ := List.mem_map.mp hvote
        exact ⟨(hcountable hnone node hnode).target_lt pair hpair,
          htargets ▸ List.mem_map_of_mem hvote⟩
    intro node hnode
    have hlabel := getElem?_eq_some_getD (hlabelsSize ▸ hnode : node < after.labels.size)
    obtain ⟨source, hreach, hsource⟩ := hinherits node _ hlabel
    have hlt : source < initial.size := (Array.getElem?_eq_some_iff.mp hsource).1
    exact ⟨source, hlt.trans_eq hsize, hreach, hlabel.trans hsource.symm⟩
  · obtain ⟨hfits, hlabel⟩ := hfresh node hnode hnone
    refine ⟨hlabel, hfits, fun other hother seed hseed ↦ ?_, fun other hother hnoneOther hne ↦ ?_⟩
    · have hseedLabel := hseeded hother hseed
      have hlt := habove other hother seed hseed
      rw [UInt64.lt_iff_toNat_lt]
      omega
    · have hotherLabel := (hfresh other hother hnoneOther).2
      intro heq
      rw [heq] at hotherLabel
      omega

/-- Two neighbours, of which the second one has a seed. -/
def seededNeighbours : LabelPropagation :=
  match neighbours.view with
  | .packed view =>
    let seeds : Column := .long #[Column.missingLong, 4]
    { LabelPropagation.new (.packed { view with columns := view.columns.insert "seed" seeds }) with
      seedKey := some "seed" }
  | view => .new view

/-- The first one starts with a label above the seed, and ends with the seed of the second one. -/
theorem labels_of_seeded_neighbours_come_from_the_seed :
    (seededNeighbours.run (8 ≤ ·)).2 = .ok () ∧
      (seededNeighbours.run (8 ≤ ·)).1.labels = #[4, 4] ∧
      seededNeighbours.seed? 0 = none ∧ seededNeighbours.seed? 1 = some 4 ∧
      ∃ initial, seededNeighbours.initialLabels = .ok initial ∧
        initial.getD 1 0 < initial.getD 0 0 ∧
        ∃ source < 2, Relation.ReflTransGen
          (fun node target ↦ target ∈ seededNeighbours.view.targets node) 0 source ∧
          initial[source]? = some 4 := by
  have hpair (run : LabelPropagation × Except AlgorithmError Unit) (h : run.2 = .ok ()) :
      run = (run.1, .ok ()) := Prod.ext rfl h
  have hsuccess : (seededNeighbours.run (8 ≤ ·)).2 = .ok () := by decide +kernel
  have hlabels : (seededNeighbours.run (8 ≤ ·)).1.labels = #[4, 4] := by decide +kernel
  have hcount : seededNeighbours.view.nodeCount = 2 := rfl
  have hfirst : seededNeighbours.seed? 0 = none := by decide +kernel
  have hsecond : seededNeighbours.seed? 1 = some 4 := by decide +kernel
  have hbound : ∀ node < seededNeighbours.view.nodeCount, ∀ seed,
      seededNeighbours.seed? node = some seed → seed < 2 ^ 63 := by
    intro node hnode seed hseed
    obtain rfl | rfl : node = 0 ∨ node = 1 := by omega
    · exact nomatch hfirst.symm.trans hseed
    · obtain rfl := Option.some_inj.mp (hsecond.symm.trans hseed)
      decide
  obtain ⟨initial, hinitial, _, _, hinherits, _, _, hfresh⟩ :=
    labels_come_from_reachable_nodes (hpair _ hsuccess) (by decide) hbound
  rw [hcount, hlabels] at hinherits
  obtain ⟨source, hlt, hreach, hsource⟩ := hinherits 0 (by decide)
  obtain ⟨_, _, hsmaller, _⟩ := hfresh 0 (by decide) hfirst
  exact ⟨hsuccess, hlabels, hfirst, hsecond, initial, hinitial,
    hsmaller 1 (by decide) 4 hsecond, source, hlt, hreach, hsource.symm⟩

end PackedGraph
