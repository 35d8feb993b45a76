import PackedGraph.Proofs.Centrality.Closeness

/-!
# Visits one after another

The masks of a visit are used again for the next group of sources, and only those of the nodes that
have been reached are cleared. What a visit reports does not depend on the visits before it: it is
what a search from each source alone would find, put together.
-/

namespace PackedGraph.SharedVisit

variable {root view : View} {state : SharedVisit} {group : NodeRange}
variable {targets : Nat → List Nat} {sources : List Nat} {arrivals : List Arrival}
variable {count first node depth : Nat}

/-! ## Arrivals -/

/-- The arrivals of a node at a depth. -/
def arrivalsAt (arrivals : List Arrival) (node depth : Nat) : List Arrival :=
  arrivals.filter fun arrival ↦ arrival.node = node ∧ arrival.depth = depth

theorem mem_arrivalsAt {arrival : Arrival} :
    arrival ∈ arrivalsAt arrivals node depth ↔
      arrival ∈ arrivals ∧ arrival.node = node ∧ arrival.depth = depth := by
  rw [arrivalsAt, List.mem_filter, decide_eq_true_eq]

theorem ArriveFrom.mem_arrivalsAt_iff (h : ArriveFrom targets sources first arrivals)
    (arrival : Arrival) :
    arrival ∈ arrivalsAt arrivals node depth ↔
      first ≤ depth ∧ sourcesAt targets sources depth node ≠ 0 ∧
        arrival = ⟨node, depth, sourcesAt targets sources depth node⟩ := by
  rw [mem_arrivalsAt, h.mem_iff]
  constructor
  · rintro ⟨⟨hfirst, hne, heq⟩, rfl, rfl⟩
    exact ⟨hfirst, heq ▸ hne, congrArg (Arrival.mk _ _) heq⟩
  · rintro ⟨hfirst, hne, rfl⟩
    exact ⟨⟨hfirst, hne, rfl⟩, rfl, rfl⟩

/-- A node arrives just once at each of its distances from the sources. -/
theorem ArriveFrom.arrivalsAt_of_exists (h : ArriveFrom targets sources first arrivals)
    (hdepth : first ≤ depth) (hsource : ∃ source ∈ sources, AtDistance targets depth source node) :
    arrivalsAt arrivals node depth = [⟨node, depth, sourcesAt targets sources depth node⟩] := by
  apply List.perm_singleton.mp
  have hnodup : (arrivalsAt arrivals node depth).Nodup := h.nodup.filter _
  apply (List.perm_ext_iff_of_nodup hnodup (List.nodup_singleton _)).mpr
  intro arrival
  rw [h.mem_arrivalsAt_iff, List.mem_singleton, and_iff_right hdepth,
    and_iff_right (sourcesAt_ne_zero_iff.mpr hsource)]

theorem ArriveFrom.arrivalsAt_of_not (h : ArriveFrom targets sources first arrivals)
    (hnone : ¬ (first ≤ depth ∧ ∃ source ∈ sources, AtDistance targets depth source node)) :
    arrivalsAt arrivals node depth = [] := by
  rw [List.eq_nil_iff_forall_not_mem]
  intro arrival hmem
  obtain ⟨hdepth, hne, _⟩ := (h.mem_arrivalsAt_iff arrival).mp hmem
  exact hnone ⟨hdepth, sourcesAt_ne_zero_iff.mp hne⟩

/-- The number of sources that the arrivals report for a node and a depth. -/
def sourcesReported (arrivals : List Arrival) (node depth : Nat) : Nat :=
  ((arrivalsAt arrivals node depth).map Arrival.sources).sum

theorem ArriveFrom.sourcesReported_eq (h : ArriveFrom targets sources first arrivals)
    (hdepth : first ≤ depth) :
    sourcesReported arrivals node depth = sourcesAt targets sources depth node := by
  rw [sourcesReported]
  by_cases hsource : ∃ source ∈ sources, AtDistance targets depth source node
  · rw [h.arrivalsAt_of_exists hdepth hsource]
    rfl
  · have hzero : sourcesAt targets sources depth node = 0 := by
      rwa [← not_ne_iff, sourcesAt_ne_zero_iff]
    rw [h.arrivalsAt_of_not fun hboth ↦ hsource hboth.2, hzero]
    rfl

/-- Every source counts for itself. -/
theorem sourcesAt_eq_sum (targets : Nat → List Nat) (sources : List Nat) (depth node : Nat) :
    sourcesAt targets sources depth node =
      (sources.map fun source ↦ sourcesAt targets [source] depth node).sum := by
  induction sources with
  | nil => rfl
  | cons source sources ih =>
    rw [List.map_cons, List.sum_cons, ← ih]
    simp only [sourcesAt, List.countP_cons, List.countP_nil, Nat.zero_add, Nat.add_comm]

/-- A shared visit reports as many sources as visits from each of them alone. -/
theorem ArriveFrom.sourcesReported_eq_sum {alone : Nat → List Arrival}
    (h : ArriveFrom targets sources first arrivals)
    (halone : ∀ source ∈ sources, ArriveFrom targets [source] first (alone source))
    (hdepth : first ≤ depth) :
    sourcesReported arrivals node depth =
      (sources.map fun source ↦ sourcesReported (alone source) node depth).sum := by
  rw [h.sourcesReported_eq hdepth, sourcesAt_eq_sum]
  congr 1
  apply List.map_congr_left
  intro source hsource
  exact ((halone source hsource).sourcesReported_eq hdepth).symm

/-! ## Runs -/

theorem nodes_of_one (source : Nat) : (NodeRange.mk source (source + 1)).nodes = [source] := by
  rw [NodeRange.nodes, NodeRange.size, Nat.add_sub_cancel_left]
  rfl

theorem isGroup_nodes (hlt : ∀ source ∈ group.nodes, source < count)
    (hsize : group.size ≤ sourcesPerVisit) : IsGroup count group.nodes where
  nodup := List.nodup_range'
  lt := hlt
  length_le := List.length_range'.trans_le hsize

theorem resizeMasks_of_size_eq {masks : Array UInt64} (h : masks.size = count) :
    resizeMasks masks count = masks := by
  rw [resizeMasks, ← h, Nat.sub_self, Array.replicate_zero, Array.append_empty,
    Array.take_eq_extract, Array.extract_size]

/-- The masks have room for the nodes, so making room again changes nothing. -/
theorem Clean.resize_eq (h : Clean count state) : state.resize count = state := by
  rw [resize, resizeMasks_of_size_eq h.size_seen, resizeMasks_of_size_eq h.size_visit,
    resizeMasks_of_size_eq h.size_next]

open Classical in
/-- A visit of a graph that can be read is independent of the visits that have left its state. It
ends after at most as many depths as there are nodes. In the order of the depths, it reports each
node once at each positive distance from some of the sources, with the number of these sources, and
nothing else. So it reports the same as visits from each source alone do together. It clears
everything but the masks of the nodes that the sources have seen. -/
theorem shared_visit_joins_searches (root view : View) (group : NodeRange)
    (hleads : ∀ node < root.nodeCount, root.LeadsBelow root.nodeCount node)
    (hreusable : Reusable root state) (hview : view.fresh = root.fresh)
    (hsources : ∀ source ∈ group.nodes, source < root.nodeCount)
    (hsize : group.size ≤ sourcesPerVisit) :
    state.resize root.nodeCount = state ∧
      ∃ after final arrivals,
        state.run view group = (after, final, .ok arrivals) ∧
        (∀ left, root.nodeCount ≤ left →
          visitFrom view left 1 (state.start group.nodes) = (after, final, .ok arrivals)) ∧
        (∀ node depth, arrivalsAt arrivals node depth =
          if 1 ≤ depth ∧ ∃ source ∈ group.nodes, AtDistance root.targets depth source node
          then [⟨node, depth, sourcesAt root.targets group.nodes depth node⟩] else []) ∧
        (∀ alone : Nat → List Arrival,
          (∀ source ∈ group.nodes, Reports root ⟨source, source + 1⟩ (alone source)) →
          ∀ node depth, 1 ≤ depth → sourcesReported arrivals node depth =
            (group.nodes.map fun source ↦ sourcesReported (alone source) node depth).sum) ∧
        (arrivals.Pairwise fun a b ↦ a.depth ≤ b.depth) ∧
        Clean root.nodeCount final ∧ Reusable root final := by
  have hgroup : IsGroup root.nodeCount group.nodes := isGroup_nodes hsources hsize
  have hclean : Clean root.nodeCount state := hreusable.clean
  obtain ⟨after, final, arrivals, hrun⟩ := hclean.run_ok hgroup hview hleads
  obtain ⟨_, hfinal, _, harrive⟩ := hclean.run_eq_ok hgroup hview hrun
  refine ⟨hclean.resize_eq, after, final, arrivals, hrun, ?_, ?_, ?_, harrive.sorted, hfinal,
    hreusable.run hview hgroup hrun⟩
  · intro left hleft
    rw [← hrun, hclean.run_eq_visitFrom hgroup view hleft]
  · intro node depth
    split_ifs with hdistance
    · exact harrive.arrivalsAt_of_exists hdistance.1 hdistance.2
    · exact harrive.arrivalsAt_of_not hdistance
  · intro alone halone node depth hdepth
    apply harrive.sourcesReported_eq_sum _ hdepth
    intro source hsource
    rw [← nodes_of_one source]
    exact (halone source hsource).arriveFrom.2

/-- On the cycle, the visit from 0 and 1 leaves its marks for the one from 1 and 2. The loop at 2
takes nobody there. -/
theorem shared_visit_joins_searches_on_loopedCycle :
    ∃ used after final, Reusable loopedCycle used ∧ used.seen = #[3, 3, 3] ∧
      used.run loopedCycle ⟨1, 3⟩ =
        (after, final, .ok [⟨2, 1, 1⟩, ⟨0, 1, 1⟩, ⟨0, 2, 1⟩, ⟨1, 2, 1⟩]) ∧
      Clean 3 final := by
  have hleads : ∀ node < 3, loopedCycle.LeadsBelow 3 node
    | 0, _ => ⟨rfl, by decide⟩
    | 1, _ => ⟨rfl, by decide⟩
    | 2, _ => ⟨rfl, by decide⟩
  obtain ⟨_, _, used, _, hfirst, _, _, _, _, _, hused⟩ :=
    shared_visit_joins_searches loopedCycle loopedCycle ⟨0, 2⟩ hleads .new rfl (by decide)
      (by decide)
  have hleft : used =
      ((blank.resize loopedCycle.nodeCount).run loopedCycle ⟨0, 2⟩).2.1 := by
    rw [hfirst]
  obtain ⟨_, after, final, arrivals, hagain, _, _, _, _, hclean, _⟩ :=
    shared_visit_joins_searches loopedCycle loopedCycle ⟨1, 3⟩ hleads hused rfl (by decide)
      (by decide)
  have harrivals : arrivals = [⟨2, 1, 1⟩, ⟨0, 1, 1⟩, ⟨0, 2, 1⟩, ⟨1, 2, 1⟩] := by
    have hreported : (used.run loopedCycle ⟨1, 3⟩).2.2.toOption = some arrivals := by
      rw [hagain]
      rfl
    rw [hleft] at hreported
    apply Option.some_inj.mp
    rw [← hreported]
    decide +kernel
  subst harrivals
  refine ⟨used, after, final, hused, ?_, hagain, hclean⟩
  rw [hleft]
  decide +kernel

end PackedGraph.SharedVisit
