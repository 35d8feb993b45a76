import PackedGraph.Proofs.Centrality.Additions

/-!
# Totals of distances

What the arrivals of a visit add to the counters of a node depends on the distances from the
sources of the visit only. So does the total of any number of visits, however the sources are put
into groups.
-/

namespace PackedGraph

variable {targets : Nat → List Nat} {count : Nat} {sources : List Nat}

open Classical in
/-- The sources that reach a node. -/
noncomputable def reaching (targets : Nat → List Nat) (sources : List Nat) (node : Nat) :
    List Nat :=
  sources.filter fun source ↦ Reaches targets source node

/-- The sum of the weights of the distances from the sources that reach a node. -/
noncomputable def total (targets : Nat → List Nat) (sources : List Nat) (weight : Nat → Nat)
    (node : Nat) : Nat :=
  ((reaching targets sources node).map fun source ↦ weight (distance targets source node)).sum

theorem mem_reaching {source node : Nat} :
    source ∈ reaching targets sources node ↔ source ∈ sources ∧ Reaches targets source node := by
  simp only [reaching, List.mem_filter, decide_eq_true_eq]

theorem total_append (more : List Nat) (weight : Nat → Nat) (node : Nat) :
    total targets (sources ++ more) weight node =
      total targets sources weight node + total targets more weight node := by
  rw [total, reaching, List.filter_append, List.map_append, List.sum_append]
  rfl

theorem total_perm {other : List Nat} (h : sources.Perm other) (weight : Nat → Nat) (node : Nat) :
    total targets sources weight node = total targets other weight node :=
  ((h.filter _).map _).sum_eq

theorem total_component (node : Nat) :
    total targets sources (Counter.weight .component) node =
      (reaching targets sources node).length := by
  simp only [total, Counter.weight]
  rw [List.map_const', List.sum_replicate]
  exact Nat.mul_one _

/-! ## The arrivals of one visit -/

open Classical in
/-- A source arrives at a node once, if it reaches the node. -/
theorem SharedVisit.ArriveFrom.sum_distances {arrivals : List Arrival}
    (h : ArriveFrom targets sources 1 arrivals) (weight : Nat → Nat) {source : Nat} (node : Nat)
    (hsource : source ∈ sources) :
    (arrivals.map fun arrival ↦
        if arrival.node = node ∧ AtDistance targets arrival.depth source node
        then weight arrival.depth else 0).sum =
      if Reaches targets source node then weight (distance targets source node) else 0 := by
  split_ifs with hreaches
  · obtain ⟨hpos, hdistance⟩ := hreaches.atDistance
    set d := distance targets source node with hd
    have hne : sourcesAt targets sources d node ≠ 0 :=
      sourcesAt_ne_zero_iff.mpr ⟨source, hsource, hdistance⟩
    have hmem : ⟨node, d, sourcesAt targets sources d node⟩ ∈ arrivals :=
      (h.mem_iff _).mpr ⟨hpos, hne, rfl⟩
    rw [List.sum_map_eq_nsmul_single ⟨node, d, sourcesAt targets sources d node⟩]
    · rw [List.count_eq_one_of_mem h.nodup hmem, if_pos ⟨rfl, hdistance⟩, one_nsmul]
    · intro other hother hin
      rw [if_neg]
      rintro ⟨hnode, hat⟩
      apply hother
      have hdepth : other.depth = d := hat.unique hdistance
      have hsources := ((h.mem_iff other).mp hin).2.2
      rw [hnode, hdepth] at hsources
      obtain ⟨otherNode, otherDepth, otherSources⟩ := other
      simp only at hnode hdepth hsources
      rw [hnode, hdepth, hsources]
  · apply List.sum_eq_zero
    intro amount hamount
    obtain ⟨arrival, harrival, rfl⟩ := List.mem_map.mp hamount
    rw [if_neg]
    rintro ⟨_, hat⟩
    exact hreaches ((atDistance_iff_of_pos ((h.mem_iff arrival).mp harrival).1).mp hat).1

/-- Adding up by arrivals and their sources, or by sources and their arrivals. -/
theorem sum_countP_mul (arrivals : List Arrival) (node : Nat) (p : Nat → Nat → Prop)
    [∀ depth source, Decidable (p depth source)] (weight : Nat → Nat) (sources : List Nat) :
    (arrivals.map fun arrival ↦ if arrival.node = node
        then (sources.countP fun source ↦ p arrival.depth source) * weight arrival.depth
        else 0).sum =
      (sources.map fun source ↦ (arrivals.map fun arrival ↦
        if arrival.node = node ∧ p arrival.depth source then weight arrival.depth else 0).sum).sum
      := by
  induction sources with
  | nil => simp
  | cons source sources ih =>
    rw [List.map_cons, List.sum_cons, ← ih, ← List.sum_map_add]
    congr 1
    apply List.map_congr_left
    intro arrival _
    rw [List.countP_cons]
    by_cases hnode : arrival.node = node
    · by_cases hp : p arrival.depth source
      · simp only [hnode, hp, if_true, and_self, decide_true]
        rw [Nat.add_mul, Nat.one_mul, Nat.add_comm]
      · simp [hnode, hp]
    · simp only [hnode, if_false, false_and]

/-- What the arrivals of a visit add up to. -/
theorem SharedVisit.ArriveFrom.sum_eq_total {arrivals : List Arrival}
    (h : ArriveFrom targets sources 1 arrivals) (weight : Nat → Nat) (node : Nat) :
    (arrivals.map fun arrival ↦
        if arrival.node = node then arrival.sources * weight arrival.depth else 0).sum =
      total targets sources weight node := by
  classical
  calc
    _ = (arrivals.map fun arrival ↦ if arrival.node = node
          then (sources.countP fun source ↦ AtDistance targets arrival.depth source node) *
            weight arrival.depth
          else 0).sum := by
      congr 1
      apply List.map_congr_left
      intro arrival harrival
      by_cases hnode : arrival.node = node
      · rw [if_pos hnode, if_pos hnode, ((h.mem_iff arrival).mp harrival).2.2, hnode, sourcesAt]
      · rw [if_neg hnode, if_neg hnode]
    _ = (sources.map fun source ↦ (arrivals.map fun arrival ↦
          if arrival.node = node ∧ AtDistance targets arrival.depth source node
          then weight arrival.depth else 0).sum).sum :=
      sum_countP_mul arrivals node (fun depth source ↦ AtDistance targets depth source node) weight
        sources
    _ = (sources.map fun source ↦ if Reaches targets source node
          then weight (distance targets source node) else 0).sum := by
      congr 1
      apply List.map_congr_left
      intro source hsource
      exact h.sum_distances weight node hsource
    _ = total targets sources weight node := by
      rw [List.sum_map_ite, total, reaching]
      simp

/-- The weights of short distances from few sources add up to a number of 64 bits. -/
theorem total_lt (hcount : count ≤ 2 ^ 32) (hlength : sources.length ≤ count)
    (hdistance : ∀ source ∈ sources, ∀ node, Reaches targets source node →
      distance targets source node < count) (counter : Counter) (node : Nat) :
    total targets sources counter.weight node < 2 ^ 64 := by
  have hterm : ∀ amount ∈ (reaching targets sources node).map fun source ↦
      counter.weight (distance targets source node), amount ≤ count - 1 := by
    intro amount hamount
    obtain ⟨source, hsource, rfl⟩ := List.mem_map.mp hamount
    obtain ⟨hmem, hreaches⟩ := mem_reaching.mp hsource
    apply (counter.weight_le hreaches.atDistance.1).trans
    exact Nat.le_sub_one_of_lt (hdistance source hmem node hreaches)
  have hfilter : (reaching targets sources node).length ≤ sources.length :=
    List.length_filter_le _ _
  calc
    total targets sources counter.weight node
      ≤ (reaching targets sources node).length * (count - 1) := by
      have hsum := List.sum_le_card_nsmul _ _ hterm
      rw [List.length_map] at hsum
      exact hsum
    _ ≤ 2 ^ 32 * (2 ^ 32 - 1) := by
      apply Nat.mul_le_mul
      · exact hfilter.trans (hlength.trans hcount)
      · exact Nat.sub_le_sub_right hcount 1
    _ < 2 ^ 64 := by decide

/-- The amounts of an arrival are exact if its depth is small enough. -/
theorem added_additions {arrival : Arrival} (hsources : arrival.sources ≤ sourcesPerVisit)
    (hdepth : arrival.depth < 2 ^ 32) (counter : Counter) (node : Nat) :
    added arrival.additions counter node =
      if arrival.node = node then arrival.sources * counter.weight arrival.depth else 0 := by
  have hsourcesLt : arrival.sources < 2 ^ 64 := hsources.trans_lt (by decide)
  have hproduct : arrival.sources * arrival.depth < 2 ^ 64 :=
    (Nat.mul_le_mul hsources hdepth.le).trans_lt (by decide)
  have hfarness : (UInt64.ofNat arrival.sources * UInt64.ofNat arrival.depth).toNat =
      arrival.sources * arrival.depth := by
    rw [UInt64.toNat_mul, UInt64.toNat_ofNat_of_lt' hsourcesLt,
      UInt64.toNat_ofNat_of_lt' (hdepth.trans (by decide)), Nat.mod_eq_of_lt hproduct]
  have hcomponent : (UInt64.ofNat arrival.sources).toNat = arrival.sources :=
    UInt64.toNat_ofNat_of_lt' hsourcesLt
  cases counter with
  | farness => simp [added, Arrival.additions, hfarness, Counter.weight]
  | component => simp [added, Arrival.additions, hcomponent, Counter.weight]

/-! ## Groups of sources -/

open SharedVisit

theorem SharedVisit.Confined.distance_lt (h : Confined targets count sources) {source node d : Nat}
    (hsource : source ∈ sources) (hdistance : AtDistance targets d source node) : d < count :=
  hdistance.lt_of_bounded fun length _ closer hcloser ↦ h source hsource length closer hcloser.1

theorem added_of_reports {root : View} (hcount : root.nodeCount ≤ 2 ^ 32) {group : NodeRange}
    {arrivals : List Arrival} (h : Reports root group arrivals) (counter : Counter) (node : Nat) :
    added (arrivals.flatMap Arrival.additions) counter node =
      total root.targets group.nodes counter.weight node := by
  obtain ⟨hconfined, harrive⟩ := h.arriveFrom
  rw [added_flatMap, ← harrive.sum_eq_total counter.weight node]
  congr 1
  apply List.map_congr_left
  intro arrival harrival
  obtain ⟨_, hne, hsources⟩ := (harrive.mem_iff arrival).mp harrival
  apply added_additions
  · rw [hsources]
    exact List.countP_le_length.trans h.1.length_le
  · rw [hsources] at hne
    obtain ⟨source, hsource, hdistance⟩ := sourcesAt_ne_zero_iff.mp hne
    exact (hconfined.distance_lt hsource hdistance).trans_le hcount

/-- What the visits of all groups add to the counters depends on their sources together only. -/
theorem added_of_forall₂_reports {root : View} (hcount : root.nodeCount ≤ 2 ^ 32)
    {groups : List NodeRange} {parts : List (List Arrival)}
    (h : List.Forall₂ (Reports root) groups parts) (counter : Counter) (node : Nat) :
    added (parts.flatten.flatMap Arrival.additions) counter node =
      total root.targets (groups.flatMap NodeRange.nodes) counter.weight node := by
  induction h with
  | nil => rfl
  | cons hgroup _ ih =>
    rw [List.flatten_cons, List.flatMap_append, added_append, added_of_reports hcount hgroup, ih,
      List.flatMap_cons, total_append]

theorem confined_of_forall₂_reports {root : View} {groups : List NodeRange}
    {parts : List (List Arrival)} (h : List.Forall₂ (Reports root) groups parts) :
    Confined root.targets root.nodeCount (groups.flatMap NodeRange.nodes) := by
  induction h with
  | nil => exact fun source hsource ↦ absurd hsource List.not_mem_nil
  | cons hgroup _ ih =>
    intro source hsource
    rw [List.flatMap_cons, List.mem_append] at hsource
    rcases hsource with hfirst | hrest
    · exact hgroup.arriveFrom.1 source hfirst
    · exact ih source hrest

end PackedGraph
