import PackedGraph.Proofs.Centrality.Distance
import PackedGraph.Proofs.Centrality.Levels

/-!
# Shared visits and distances

Between two depths the masks tell which sources have seen a node, and which of them are exactly as
far away from it as the depth says. A visit therefore reports the nodes by their distances from the
sources, and it leaves the masks clean for the next group.
-/

namespace PackedGraph.SharedVisit

variable {targets : Nat → List Nat} {count level : Nat} {sources : List Nat}
  {state : SharedVisit}

open Classical in
/-- The number of sources at a distance from a node. -/
noncomputable def sourcesAt (targets : Nat → List Nat) (sources : List Nat) (distance node : Nat) :
    Nat :=
  sources.countP fun source ↦ AtDistance targets distance source node

theorem sourcesAt_ne_zero_iff {distance node : Nat} :
    sourcesAt targets sources distance node ≠ 0 ↔
      ∃ source ∈ sources, AtDistance targets distance source node := by
  rw [sourcesAt, ← Nat.pos_iff_ne_zero, List.countP_pos_iff]
  simp only [decide_eq_true_eq]

/-- The state when all nodes up to a distance from some source have been seen, and those at this
distance are about to be expanded. -/
structure Level (targets : Nat → List Nat) (count : Nat) (sources : List Nat) (level : Nat)
    (state : SharedVisit) : Prop where
  size_seen : state.seen.size = count
  size_visit : state.visit.size = count
  size_next : state.next.size = count
  hasBit_seen : ∀ node bit, HasBit state.seen node bit ↔
    ∃ source, sources[bit]? = some source ∧ ∃ length ≤ level, Walk targets length source node
  hasBit_visit : ∀ node bit, HasBit state.visit node bit ↔
    ∃ source, sources[bit]? = some source ∧ AtDistance targets level source node
  next_zero : ∀ node, maskOf state.next node = 0
  nodup_frontier : state.frontier.Nodup
  mem_frontier : ∀ node, node ∈ state.frontier ↔
    ∃ source ∈ sources, AtDistance targets level source node
  candidates_nil : state.candidates = []
  mem_reached : ∀ node, maskOf state.seen node ≠ 0 → node ∈ state.reached

/-- The state between two groups: no node is visited, and the nodes that some source has seen are
known. -/
structure Clean (count : Nat) (state : SharedVisit) : Prop where
  size_seen : state.seen.size = count
  size_visit : state.visit.size = count
  size_next : state.next.size = count
  visit_zero : ∀ node, maskOf state.visit node = 0
  next_zero : ∀ node, maskOf state.next node = 0
  frontier_nil : state.frontier = []
  candidates_nil : state.candidates = []
  mem_reached : ∀ node, maskOf state.seen node ≠ 0 → node ∈ state.reached

/-- A group of sources that can share a visit. -/
structure IsGroup (count : Nat) (sources : List Nat) : Prop where
  nodup : sources.Nodup
  lt : ∀ source ∈ sources, source < count
  length_le : sources.length ≤ sourcesPerVisit

/-- The arrivals of a visit from a first depth on. A node arrives once at each distance that it has
from some of the sources, with the number of these sources. -/
structure ArriveFrom (targets : Nat → List Nat) (sources : List Nat) (first : Nat)
    (arrivals : List Arrival) : Prop where
  nodup : arrivals.Nodup
  mem_iff : ∀ arrival, arrival ∈ arrivals ↔ first ≤ arrival.depth ∧ arrival.sources ≠ 0 ∧
    arrival.sources = sourcesAt targets sources arrival.depth arrival.node
  sorted : arrivals.Pairwise fun a b ↦ a.depth ≤ b.depth

/-- All walks from some sources stay on the nodes of the graph. -/
def Confined (targets : Nat → List Nat) (count : Nat) (sources : List Nat) : Prop :=
  ∀ source ∈ sources, ∀ length node, Walk targets length source node → node < count

/-! ## The first level -/

theorem start_eq (state : SharedVisit) (sources : List Nat) :
    state.start sources = { state with
      seen := markFrom (clearAll state.seen state.reached) sources 0
      visit := markFrom state.visit sources 0
      frontier := state.frontier ++ sources
      reached := sources } := rfl

theorem maskOf_replicate (size node : Nat) : maskOf (Array.replicate size 0) node = 0 := by
  rw [maskOf, Array.getD_eq_getD_getElem?, Array.getElem?_replicate]
  split_ifs <;> rfl

theorem clean_blank (count : Nat) : Clean count (blank.resize count) := by
  have hmasks : resizeMasks #[] count = Array.replicate count 0 := by
    simp [resizeMasks]
  constructor
  · exact (congrArg Array.size hmasks).trans Array.size_replicate
  · exact (congrArg Array.size hmasks).trans Array.size_replicate
  · exact (congrArg Array.size hmasks).trans Array.size_replicate
  · intro node
    exact (congrArg (maskOf · node) hmasks).trans (maskOf_replicate count node)
  · intro node
    exact (congrArg (maskOf · node) hmasks).trans (maskOf_replicate count node)
  · rfl
  · rfl
  · intro node h
    exact absurd ((congrArg (maskOf · node) hmasks).trans (maskOf_replicate count node)) h

theorem Clean.start (h : Clean count state) (hgroup : IsGroup count sources) :
    Level targets count sources 0 (state.start sources) := by
  rw [start_eq]
  have hclear (node : Nat) : maskOf (clearAll state.seen state.reached) node = 0 := by
    rw [maskOf_clearAll]
    split_ifs with hnode
    · rfl
    · by_contra hmask
      exact hnode (h.mem_reached node hmask)
  have hsize : (clearAll state.seen state.reached).size = count :=
    (size_clearAll _).trans h.size_seen
  have hseen (node bit : Nat) :
      HasBit (markFrom (clearAll state.seen state.reached) sources 0) node bit ↔
        sources[bit]? = some node :=
    hasBit_markFrom hgroup.nodup (hsize.symm ▸ hgroup.lt) hgroup.length_le hclear node bit
  have hvisit (node bit : Nat) :
      HasBit (markFrom state.visit sources 0) node bit ↔ sources[bit]? = some node :=
    hasBit_markFrom hgroup.nodup (h.size_visit.symm ▸ hgroup.lt) hgroup.length_le h.visit_zero
      node bit
  constructor
  · exact (size_markFrom sources 0).trans hsize
  · exact (size_markFrom sources 0).trans h.size_visit
  · exact h.size_next
  · intro node bit
    rw [hseen]
    constructor
    · intro hbit
      exact ⟨node, hbit, 0, le_rfl, rfl⟩
    · rintro ⟨source, hbit, length, hlength, hwalk⟩
      rw [Nat.le_zero.mp hlength] at hwalk
      exact hwalk ▸ hbit
  · intro node bit
    rw [hvisit]
    simp only [atDistance_zero, exists_eq_right]
  · exact h.next_zero
  · rw [h.frontier_nil]
    exact hgroup.nodup
  · intro node
    simp only [h.frontier_nil, List.nil_append, atDistance_zero, exists_eq_right]
  · exact h.candidates_nil
  · intro node hmask
    obtain ⟨bit, hbit⟩ := maskOf_ne_zero_iff.mp hmask
    exact List.mem_of_getElem? ((hseen node bit).mp hbit)

/-! ## From one level to the next -/

theorem Level.lt_of_walk (h : Level targets count sources level state) {source node length : Nat}
    (hsource : source ∈ sources) (hlength : length ≤ level)
    (hwalk : Walk targets length source node) : node < count := by
  obtain ⟨bit, hbit⟩ := List.mem_iff_getElem?.mp hsource
  rw [← h.size_seen]
  apply lt_size_of_maskOf_ne_zero
  apply maskOf_ne_zero_iff.mpr
  exact ⟨bit, (h.hasBit_seen node bit).mpr ⟨source, hbit, length, hlength, hwalk⟩⟩

/-- There are fewer levels with a node than nodes. -/
theorem Level.level_lt (h : Level targets count sources level state)
    (hfrontier : state.frontier ≠ []) : level < count := by
  obtain ⟨node, hnode⟩ := List.exists_mem_of_ne_nil _ hfrontier
  obtain ⟨source, hsource, hdistance⟩ := (h.mem_frontier node).mp hnode
  apply hdistance.lt_of_bounded
  intro length hlength closer hcloser
  exact h.lt_of_walk hsource hlength hcloser.1

theorem Level.maskOf_visit_ne_zero_iff (h : Level targets count sources level state)
    {node : Nat} : maskOf state.visit node ≠ 0 ↔ node ∈ state.frontier := by
  rw [maskOf_ne_zero_iff, h.mem_frontier]
  simp only [h.hasBit_visit, List.mem_iff_getElem?]
  constructor
  · rintro ⟨bit, source, hbit, hdistance⟩
    exact ⟨source, ⟨bit, hbit⟩, hdistance⟩
  · rintro ⟨source, ⟨bit, hbit⟩, hdistance⟩
    exact ⟨bit, source, hbit, hdistance⟩

/-- The last level leaves the state clean. -/
theorem Level.clean (h : Level targets count sources level state)
    (hfrontier : state.frontier = []) : Clean count state := by
  constructor
  · exact h.size_seen
  · exact h.size_visit
  · exact h.size_next
  · intro node
    by_contra hmask
    have hnode := h.maskOf_visit_ne_zero_iff.mp hmask
    rw [hfrontier] at hnode
    exact List.not_mem_nil hnode
  · exact h.next_zero
  · exact hfrontier
  · exact h.candidates_nil
  · exact h.mem_reached

/-- What the sources of the frontier have been passed on to, before it is settled. -/
structure Passed (targets : Nat → List Nat) (count : Nat) (sources : List Nat) (level : Nat)
    (state : SharedVisit) : Prop where
  size_seen : state.seen.size = count
  size_visit : state.visit.size = count
  gathered : Gathered count (fun target bit ↦ ∃ source, sources[bit]? = some source ∧
    ∃ last, AtDistance targets level source last ∧ target ∈ targets last)
    (state.next, state.candidates)
  hasBit_seen : ∀ node bit, HasBit state.seen node bit ↔
    ∃ source, sources[bit]? = some source ∧ ∃ length ≤ level, Walk targets length source node
  visit_zero : ∀ node, maskOf state.visit node = 0
  frontier_nil : state.frontier = []
  mem_reached : ∀ node, maskOf state.seen node ≠ 0 → node ∈ state.reached

theorem Level.passed {root view after : View} {expanded : SharedVisit}
    (h : Level root.targets count sources level state) (hview : view.fresh = root.fresh)
    (hexpand : expand view state state.frontier = (after, expanded, .ok ())) :
    after.fresh = root.fresh ∧
      Passed root.targets count sources level { expanded with frontier := [] } := by
  have hmasks : ∀ node ∈ state.frontier, maskOf state.visit node ≠ 0 :=
    fun node hnode ↦ h.maskOf_visit_ne_zero_iff.mpr hnode
  have hgathered : Gathered count (fun _ _ ↦ False) (state.next, state.candidates) := by
    constructor
    · exact h.size_next
    · intro node bit
      rw [iff_false]
      intro hbit
      exact maskOf_ne_zero_iff.mpr ⟨bit, hbit⟩ (h.next_zero node)
    · rw [h.candidates_nil]
      exact List.nodup_nil
    · intro node
      rw [h.candidates_nil, h.next_zero]
      simp only [List.not_mem_nil, ne_eq, not_true_eq_false]
  obtain ⟨hafter, _, next, candidates, rfl, hnext⟩ :=
    expand_eq_ok hview hexpand hgathered h.nodup_frontier hmasks
  refine ⟨hafter, ?_⟩
  constructor
  · exact h.size_seen
  · exact (size_clearAll state.frontier).trans h.size_visit
  · apply hnext.congr
    intro target bit
    simp only [false_or, h.hasBit_visit]
    constructor
    · rintro ⟨last, _, ⟨source, hbit, hlast⟩, htarget⟩
      exact ⟨source, hbit, last, hlast, htarget⟩
    · rintro ⟨source, hbit, last, hlast, htarget⟩
      exact ⟨last, (h.mem_frontier last).mpr ⟨source, List.mem_of_getElem? hbit, hlast⟩,
        ⟨source, hbit, hlast⟩, htarget⟩
  · exact h.hasBit_seen
  · intro node
    have hclear := @maskOf_clearAll state.visit state.frontier node
    refine hclear.trans ?_
    split_ifs with hnode
    · rfl
    · by_contra hmask
      exact hnode (h.maskOf_visit_ne_zero_iff.mp hmask)
  · rfl
  · exact h.mem_reached

theorem Passed.testBit_arriving_iff (h : Passed targets count sources level state)
    (node bit : Nat) : (state.arriving node).toNat.testBit bit = true ↔
      ∃ source, sources[bit]? = some source ∧ AtDistance targets (level + 1) source node := by
  rw [testBit_arriving, h.gathered.hasBit_iff, h.hasBit_seen]
  simp only [atDistance_succ_iff]
  cases sources[bit]? with
  | none => simp only [reduceCtorEq, false_and, exists_false]
  | some source => simp only [Option.some.injEq, exists_eq_left']

theorem Passed.arriving_ne_zero_iff (h : Passed targets count sources level state) (node : Nat) :
    state.arriving node ≠ 0 ↔ ∃ source ∈ sources, AtDistance targets (level + 1) source node := by
  rw [ne_zero_iff_testBit]
  simp only [h.testBit_arriving_iff, List.mem_iff_getElem?]
  constructor
  · rintro ⟨bit, source, hbit, hdistance⟩
    exact ⟨source, ⟨bit, hbit⟩, hdistance⟩
  · rintro ⟨source, ⟨bit, hbit⟩, hdistance⟩
    exact ⟨bit, source, hbit, hdistance⟩

theorem Passed.onesOf_arriving (h : Passed targets count sources level state)
    (hlength : sources.length ≤ sourcesPerVisit) (node : Nat) :
    onesOf (state.arriving node) = sourcesAt targets sources (level + 1) node := by
  apply onesOf_eq_countP hlength
  intro bit
  simp only [h.testBit_arriving_iff, decide_eq_true_eq]

theorem Passed.mem_candidates (h : Passed targets count sources level state) {node bit : Nat}
    (hbit : HasBit state.next node bit) : node ∈ state.candidates :=
  (h.gathered.mem_iff node).mpr (maskOf_ne_zero_iff.mpr ⟨bit, hbit⟩)

/-- The candidates that some source reaches for the first time. -/
theorem Passed.mem_filter_iff (h : Passed targets count sources level state) (node : Nat) :
    node ∈ state.candidates.filter (state.arriving · ≠ 0) ↔
      ∃ source ∈ sources, AtDistance targets (level + 1) source node := by
  rw [List.mem_filter, decide_eq_true_eq, h.arriving_ne_zero_iff, and_iff_right_of_imp]
  intro harriving
  obtain ⟨bit, hbit⟩ := ne_zero_iff_testBit.mp ((h.arriving_ne_zero_iff node).mpr harriving)
  exact h.mem_candidates ((testBit_arriving state node bit).mp hbit).1

theorem Passed.settled (h : Passed targets count sources level state) (depth : Nat) :
    Settled depth state.candidates (state, [])
      (state.candidates.foldl (settle depth) (state, [])) :=
  settled_foldl h.size_seen h.size_visit h.gathered.size_eq h.gathered.nodup
    fun node _ ↦ h.visit_zero node

theorem Passed.next_level {depth : Nat} {settled : SharedVisit × List Arrival}
    (h : Passed targets count sources level state)
    (hsettled : Settled depth state.candidates (state, []) settled) :
    Level targets count sources (level + 1)
      { settled.1 with frontier := settled.1.frontier.reverse, candidates := [] } := by
  have hfrontier : settled.1.frontier.reverse =
      state.candidates.filter (state.arriving · ≠ 0) := by
    rw [hsettled.frontier_eq, h.frontier_nil, List.append_nil, List.reverse_reverse]
  constructor
  · exact hsettled.size_seen.trans h.size_seen
  · exact hsettled.size_visit.trans h.size_visit
  · rw [hsettled.next_eq]
    exact (size_clearAll _).trans h.gathered.size_eq
  · intro node bit
    rw [hsettled.hasBit_seen, and_iff_right_of_imp h.mem_candidates, h.hasBit_seen,
      h.gathered.hasBit_iff]
    simp only [exists_walk_le_succ_iff]
    cases sources[bit]? with
    | none => simp only [reduceCtorEq, false_and, exists_false, or_self]
    | some source => simp only [Option.some.injEq, exists_eq_left']
  · intro node bit
    rw [hsettled.hasBit_visit, and_iff_right_of_imp fun hbit ↦ h.mem_candidates hbit.1,
      ← testBit_arriving, h.testBit_arriving_iff, or_iff_right]
    intro hbit
    exact maskOf_ne_zero_iff.mpr ⟨bit, hbit⟩ (h.visit_zero node)
  · intro node
    rw [hsettled.next_eq, maskOf_clearAll]
    split_ifs with hnode
    · rfl
    · by_contra hmask
      exact hnode ((h.gathered.mem_iff node).mpr hmask)
  · rw [hfrontier]
    exact h.gathered.nodup.filter _
  · intro node
    rw [hfrontier]
    exact h.mem_filter_iff node
  · rfl
  · intro node hmask
    rcases hsettled.mem_reached node hmask with hbefore | hreached
    · exact hsettled.reached_subset (h.mem_reached node hbefore)
    · exact hreached

/-- The nodes that arrive when the candidates are settled. -/
theorem Passed.mem_arrivals_iff {depth : Nat} {settled : SharedVisit × List Arrival}
    (h : Passed targets count sources level state)
    (hlength : sources.length ≤ sourcesPerVisit)
    (hsettled : Settled depth state.candidates (state, []) settled) (arrival : Arrival) :
    arrival ∈ settled.2.reverse ↔ arrival.depth = depth ∧ arrival.sources ≠ 0 ∧
      arrival.sources = sourcesAt targets sources (level + 1) arrival.node := by
  rw [hsettled.arrivals_eq, List.append_nil, List.reverse_reverse, List.mem_map]
  simp only [h.mem_filter_iff, ← sourcesAt_ne_zero_iff, h.onesOf_arriving hlength]
  constructor
  · rintro ⟨node, hnode, rfl⟩
    exact ⟨rfl, hnode, rfl⟩
  · rintro ⟨rfl, hsources, heq⟩
    refine ⟨arrival.node, heq ▸ hsources, ?_⟩
    rw [← heq]

theorem Passed.nodup_arrivals {depth : Nat} {settled : SharedVisit × List Arrival}
    (h : Passed targets count sources level state)
    (hsettled : Settled depth state.candidates (state, []) settled) :
    settled.2.reverse.Nodup := by
  rw [hsettled.arrivals_eq, List.append_nil, List.reverse_reverse]
  apply (h.gathered.nodup.filter _).map
  intro node other heq
  exact congrArg Arrival.node heq

/-! ## Whole visits -/

variable {root view after : View} {left depth : Nat}

theorem visitFrom_of_nil (h : state.frontier = []) :
    visitFrom view left depth state = (view, state, .ok []) := by
  cases left with
  | zero => rfl
  | succ left => rw [visitFrom.eq_def, h]

theorem visitFrom_of_expand_error {failed : SharedVisit} {error : ReadError}
    (h : state.frontier ≠ [])
    (hexpand : expand view state state.frontier = (after, failed, .error error)) :
    visitFrom view (left + 1) depth state = (after, failed, .error error) := by
  cases hfrontier : state.frontier with
  | nil => exact absurd hfrontier h
  | cons node nodes =>
    rw [hfrontier] at hexpand
    rw [visitFrom.eq_def]
    simp only [hfrontier, hexpand]

theorem visitFrom_of_expand_ok {expanded : SharedVisit} (h : state.frontier ≠ [])
    (hexpand : expand view state state.frontier = (after, expanded, .ok ())) :
    visitFrom view (left + 1) depth state =
      let settled :=
        expanded.candidates.foldl (settle depth) ({ expanded with frontier := [] }, [])
      let next := { settled.1 with frontier := settled.1.frontier.reverse, candidates := [] }
      let later := visitFrom after left (depth + 1) next
      (later.1, later.2.1, later.2.2.map (settled.2.reverse ++ ·)) := by
  cases hfrontier : state.frontier with
  | nil => exact absurd hfrontier h
  | cons node nodes =>
    rw [hfrontier] at hexpand
    conv_lhs => rw [visitFrom.eq_def]
    simp only [hfrontier, hexpand]

theorem ArriveFrom.nil (h : ∀ d, first ≤ d → ∀ node, sourcesAt targets sources d node = 0) :
    ArriveFrom targets sources first [] := by
  refine ⟨List.nodup_nil, fun arrival ↦ ?_, List.Pairwise.nil⟩
  constructor
  · intro hmem
    exact absurd hmem List.not_mem_nil
  · rintro ⟨hdepth, hne, heq⟩
    exact absurd (heq.trans (h _ hdepth _)) hne

theorem ArriveFrom.append {first : Nat} {here later : List Arrival} (hnodup : here.Nodup)
    (hhere : ∀ arrival, arrival ∈ here ↔ arrival.depth = first ∧ arrival.sources ≠ 0 ∧
      arrival.sources = sourcesAt targets sources first arrival.node)
    (hlater : ArriveFrom targets sources (first + 1) later) :
    ArriveFrom targets sources first (here ++ later) := by
  have hdepth {a b : Arrival} (ha : a ∈ here) (hb : b ∈ later) : a.depth < b.depth := by
    rw [((hhere a).mp ha).1]
    exact ((hlater.mem_iff b).mp hb).1
  constructor
  · apply hnodup.append hlater.nodup
    intro arrival ha hb
    exact absurd (hdepth ha hb) (lt_irrefl _)
  · intro arrival
    rw [List.mem_append, hhere, hlater.mem_iff]
    constructor
    · rintro (⟨rfl, hne, heq⟩ | ⟨hlt, hrest⟩)
      · exact ⟨le_rfl, hne, heq⟩
      · exact ⟨Nat.le_of_succ_le hlt, hrest⟩
    · rintro ⟨hle, hne, heq⟩
      rcases hle.eq_or_lt with rfl | hlt
      · exact .inl ⟨rfl, hne, heq⟩
      · exact .inr ⟨hlt, hne, heq⟩
  · rw [List.pairwise_append]
    refine ⟨?_, hlater.sorted, fun a ha b hb ↦ (hdepth ha hb).le⟩
    apply List.pairwise_of_forall_mem_list
    intro a ha b hb
    exact (((hhere a).mp ha).1.trans ((hhere b).mp hb).1.symm).le

/-- Nothing is reachable but what has been seen when the frontier is empty. -/
theorem Level.distance_le (h : Level targets count sources level state)
    (hfrontier : state.frontier = []) {source node d : Nat} (hsource : source ∈ sources)
    (hdistance : AtDistance targets d source node) : d < level := by
  by_contra hle
  obtain ⟨closer, hcloser⟩ := hdistance.exists_closer level (not_lt.mp hle)
  have hmem := (h.mem_frontier closer).mpr ⟨source, hsource, hcloser⟩
  rw [hfrontier] at hmem
  exact List.not_mem_nil hmem

theorem Level.confined (h : Level targets count sources level state)
    (hfrontier : state.frontier = []) : Confined targets count sources := by
  intro source hsource length node hwalk
  obtain ⟨d, _, hdistance⟩ := exists_atDistance_of_walk hwalk
  exact h.lt_of_walk hsource (h.distance_le hfrontier hsource hdistance).le hdistance.1

theorem Level.arriveFrom_nil (h : Level targets count sources level state)
    (hfrontier : state.frontier = []) : ArriveFrom targets sources (level + 1) [] := by
  apply ArriveFrom.nil
  intro d hd node
  by_contra hne
  obtain ⟨source, hsource, hdistance⟩ := sourcesAt_ne_zero_iff.mp hne
  exact absurd (h.distance_le hfrontier hsource hdistance) (not_lt.mpr (Nat.le_of_succ_le hd))

theorem Level.frontier_lt (h : Level targets count sources level state) :
    ∀ node ∈ state.frontier, node < count := by
  intro node hnode
  obtain ⟨source, hsource, hdistance⟩ := (h.mem_frontier node).mp hnode
  exact h.lt_of_walk hsource le_rfl hdistance.1

/-- A depth with a frontier fails, whatever is left, or it leads to the next level. -/
theorem Level.visitFrom_succ_cases (h : Level root.targets count sources level state)
    (hlength : sources.length ≤ sourcesPerVisit) (hview : view.fresh = root.fresh)
    (hfrontier : state.frontier ≠ []) :
    (∃ reader failed error, (¬ ∀ node < count, root.LeadsBelow count node) ∧
      ∀ left, visitFrom view (left + 1) (level + 1) state = (reader, failed, .error error)) ∨
    ∃ reader next here, reader.fresh = root.fresh ∧
      Level root.targets count sources (level + 1) next ∧ here.Nodup ∧
      (∀ arrival, arrival ∈ here ↔ arrival.depth = level + 1 ∧ arrival.sources ≠ 0 ∧
        arrival.sources = sourcesAt root.targets sources (level + 1) arrival.node) ∧
      ∀ left, visitFrom view (left + 1) (level + 1) state =
        let later := visitFrom reader left (level + 1 + 1) next
        (later.1, later.2.1, later.2.2.map (here ++ ·)) := by
  generalize hexpand : expand view state state.frontier = expansion
  obtain ⟨reader, expanded, outcome⟩ := expansion
  cases outcome with
  | error error =>
    refine .inl ⟨reader, expanded, error, fun hleads ↦ ?_, fun left ↦ ?_⟩
    · obtain ⟨_, _, hok⟩ := expand_ok hview h.size_next
        fun node hnode ↦ hleads node (h.frontier_lt node hnode)
      exact absurd (congrArg (·.2.2) (hexpand.symm.trans hok)) nofun
    · exact visitFrom_of_expand_error hfrontier hexpand
  | ok _ =>
    obtain ⟨hreader, hpassed⟩ := h.passed hview hexpand
    have hsettled := hpassed.settled (level + 1)
    exact .inr ⟨reader, _, _, hreader, hpassed.next_level hsettled,
      hpassed.nodup_arrivals hsettled, hpassed.mem_arrivals_iff hlength hsettled,
      fun left ↦ visitFrom_of_expand_ok hfrontier hexpand⟩

theorem Level.frontier_nil (h : Level targets count sources level state) (hlevel : count ≤ level) :
    state.frontier = [] := by
  by_contra hne
  exact absurd (h.level_lt hne) (not_lt.mpr hlevel)

/-- A visit that can read what it needs reports the distances beyond a level, and leaves a clean
state behind. -/
theorem Level.visitFrom_eq_ok {final : SharedVisit} {arrivals : List Arrival}
    (h : Level root.targets count sources level state)
    (hlength : sources.length ≤ sourcesPerVisit) (hview : view.fresh = root.fresh)
    (hleft : count ≤ left + level)
    (hvisit : visitFrom view left (level + 1) state = (after, final, .ok arrivals)) :
    after.fresh = root.fresh ∧ Clean count final ∧ Confined root.targets count sources ∧
      ArriveFrom root.targets sources (level + 1) arrivals := by
  induction left generalizing level view state arrivals with
  | zero =>
    have hfrontier := h.frontier_nil (hleft.trans_eq (Nat.zero_add level))
    rw [visitFrom_of_nil hfrontier, Prod.mk.injEq, Prod.mk.injEq, Except.ok.injEq] at hvisit
    obtain ⟨rfl, rfl, rfl⟩ := hvisit
    exact ⟨hview, h.clean hfrontier, h.confined hfrontier, h.arriveFrom_nil hfrontier⟩
  | succ left ih =>
    by_cases hfrontier : state.frontier = []
    · rw [visitFrom_of_nil hfrontier, Prod.mk.injEq, Prod.mk.injEq, Except.ok.injEq] at hvisit
      obtain ⟨rfl, rfl, rfl⟩ := hvisit
      exact ⟨hview, h.clean hfrontier, h.confined hfrontier, h.arriveFrom_nil hfrontier⟩
    · rcases h.visitFrom_succ_cases hlength hview hfrontier with
        ⟨_, _, _, _, hfail⟩ | ⟨reader, next, here, hreader, hnext, hnodup, hhere, hstep⟩
      · rw [hfail] at hvisit
        exact absurd (congrArg (·.2.2) hvisit) nofun
      · rw [hstep] at hvisit
        generalize hlater : visitFrom reader left (level + 1 + 1) next = later at hvisit
        obtain ⟨laterView, laterState, outcome⟩ := later
        cases outcome with
        | error error => exact absurd (congrArg (·.2.2) hvisit) nofun
        | ok laterArrivals =>
          simp only [Except.map, Prod.mk.injEq, Except.ok.injEq] at hvisit
          obtain ⟨rfl, rfl, rfl⟩ := hvisit
          obtain ⟨hafter, hclean, hconfined, hrest⟩ := ih hnext hreader (by omega) hlater
          exact ⟨hafter, hclean, hconfined, ArriveFrom.append hnodup hhere hrest⟩

/-- A visit of a graph that can be read does not fail. -/
theorem Level.visitFrom_ok (h : Level root.targets count sources level state)
    (hlength : sources.length ≤ sourcesPerVisit) (hview : view.fresh = root.fresh)
    (hleads : ∀ node < count, root.LeadsBelow count node) (left : Nat) :
    ∃ after final arrivals,
      visitFrom view left (level + 1) state = (after, final, .ok arrivals) := by
  induction left generalizing level view state with
  | zero => exact ⟨view, state, [], rfl⟩
  | succ left ih =>
    by_cases hfrontier : state.frontier = []
    · exact ⟨view, state, [], visitFrom_of_nil hfrontier⟩
    · rcases h.visitFrom_succ_cases hlength hview hfrontier with
        ⟨_, _, _, hnot, _⟩ | ⟨reader, next, here, hreader, hnext, _, _, hstep⟩
      · exact absurd hleads hnot
      · obtain ⟨after, final, later, hlater⟩ := ih hnext hreader
        refine ⟨after, final, here ++ later, ?_⟩
        rw [hstep, hlater]
        rfl

/-- No visit goes through more depths than there are nodes. -/
theorem Level.visitFrom_congr {left' : Nat} (h : Level root.targets count sources level state)
    (hlength : sources.length ≤ sourcesPerVisit) (hview : view.fresh = root.fresh)
    (hleft : count ≤ left + level) (hleft' : count ≤ left' + level) :
    visitFrom view left (level + 1) state = visitFrom view left' (level + 1) state := by
  induction left generalizing level left' view state with
  | zero =>
    have hfrontier := h.frontier_nil (hleft.trans_eq (Nat.zero_add level))
    rw [visitFrom_of_nil hfrontier, visitFrom_of_nil hfrontier]
  | succ left ih =>
    by_cases hfrontier : state.frontier = []
    · rw [visitFrom_of_nil hfrontier, visitFrom_of_nil hfrontier]
    · cases left' with
      | zero => exact absurd (h.frontier_nil (hleft'.trans_eq (Nat.zero_add level))) hfrontier
      | succ left' =>
        rcases h.visitFrom_succ_cases hlength hview hfrontier with
          ⟨_, _, _, _, hfail⟩ | ⟨reader, next, here, hreader, hnext, _, _, hstep⟩
        · rw [hfail, hfail]
        · have hlater : visitFrom reader left (level + 1 + 1) next =
              visitFrom reader left' (level + 1 + 1) next :=
            ih hnext hreader (by omega) (by omega)
          rw [hstep, hstep, hlater]

/-! ## Visits of a group -/

/-- The states of visits of a graph: a new one, and those that visits of other groups leave. -/
inductive Reusable (root : View) : SharedVisit → Prop where
  | new : Reusable root (blank.resize root.nodeCount)
  | run {view after : View} {state final : SharedVisit} {group : NodeRange}
      {arrivals : List Arrival} (reusable : Reusable root state) (fresh : view.fresh = root.fresh)
      (sources : IsGroup root.nodeCount group.nodes)
      (ok : state.run view group = (after, final, .ok arrivals)) : Reusable root final

variable {group : NodeRange}

/-- A visit by a group goes through at most as many depths as there are nodes. -/
theorem Clean.run_eq_visitFrom (h : Clean count state) (hgroup : IsGroup count group.nodes)
    (view : View) (hleft : count ≤ left) :
    state.run view group = visitFrom view left 1 (state.start group.nodes) := by
  have hlevel : Level view.targets count group.nodes 0 (state.start group.nodes) :=
    h.start hgroup
  apply hlevel.visitFrom_congr hgroup.length_le rfl _ hleft
  rw [h.size_seen, sourcesPerVisit]
  omega

theorem Clean.run_eq_ok {final : SharedVisit} {arrivals : List Arrival} (h : Clean count state)
    (hgroup : IsGroup count group.nodes) (hview : view.fresh = root.fresh)
    (hrun : state.run view group = (after, final, .ok arrivals)) :
    after.fresh = root.fresh ∧ Clean count final ∧ Confined root.targets count group.nodes ∧
      ArriveFrom root.targets group.nodes 1 arrivals := by
  rw [h.run_eq_visitFrom hgroup view le_rfl] at hrun
  exact (h.start hgroup).visitFrom_eq_ok hgroup.length_le hview le_rfl hrun

theorem Clean.run_ok (h : Clean count state) (hgroup : IsGroup count group.nodes)
    (hview : view.fresh = root.fresh) (hleads : ∀ node < count, root.LeadsBelow count node) :
    ∃ after final arrivals, state.run view group = (after, final, .ok arrivals) := by
  rw [h.run_eq_visitFrom hgroup view le_rfl]
  have hlevel : Level root.targets count group.nodes 0 (state.start group.nodes) :=
    h.start hgroup
  exact hlevel.visitFrom_ok hgroup.length_le hview hleads count

theorem Reusable.clean (h : Reusable root state) : Clean root.nodeCount state := by
  induction h with
  | new => exact clean_blank root.nodeCount
  | run _ hview hgroup hrun ih => exact (ih.run_eq_ok hgroup hview hrun).2.1

/-- A visit by a group reports some arrivals, on some copy of a view and with some state that other
visits have left. -/
def Reports (root : View) (group : NodeRange) (arrivals : List Arrival) : Prop :=
  IsGroup root.nodeCount group.nodes ∧ ∃ view state after final, view.fresh = root.fresh ∧
    Reusable root state ∧ state.run view group = (after, final, .ok arrivals)

theorem Reports.arriveFrom {arrivals : List Arrival} (h : Reports root group arrivals) :
    Confined root.targets root.nodeCount group.nodes ∧
      ArriveFrom root.targets group.nodes 1 arrivals := by
  obtain ⟨hgroup, view, state, after, final, hview, hstate, hrun⟩ := h
  exact (hstate.clean.run_eq_ok hgroup hview hrun).2.2

end PackedGraph.SharedVisit
