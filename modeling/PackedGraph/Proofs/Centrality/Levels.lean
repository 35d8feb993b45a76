import PackedGraph.Proofs.Centrality.Masks
import PackedGraph.Proofs.View.Reading

/-!
# The two halves of a depth

At every depth the sources of the frontier are passed on to the targets, which become candidates,
and then the candidates are settled. Each half is described by the bits of the masks that it leaves.
-/

namespace PackedGraph

/-- A node can be read to its end, and its targets are nodes. -/
def View.LeadsBelow (view : View) (count node : Nat) : Prop :=
  (view.reading node).ending = .ok () ∧ ∀ target ∈ view.targets node, target < count

namespace SharedVisit

/-! ## Passing on -/

/-- The masks and the candidates after a target that is a node. -/
def passed (mask : UInt64) (state : Array UInt64 × List Nat) (target : Nat) :
    Array UInt64 × List Nat :=
  (state.1.setIfInBounds target (maskOf state.1 target ||| mask),
    if maskOf state.1 target = 0 then target :: state.2 else state.2)

theorem passOn_of_lt (mask : UInt64) {state : Array UInt64 × List Nat} {target : Nat}
    (h : target < state.1.size) : passOn mask state target = .more (passed mask state target) := by
  have hmask : maskOf state.1 target = state.1[target] := by
    rw [maskOf, Array.getD_eq_getD_getElem?, Array.getElem?_eq_getElem h, Option.getD_some]
  rw [passOn, Array.getElem?_eq_getElem h, passed, hmask]

theorem passOn_of_le (mask : UInt64) {state : Array UInt64 × List Nat} {target : Nat}
    (h : state.1.size ≤ target) : passOn mask state target = .broken .outOfBounds := by
  rw [passOn, Array.getElem?_eq_none h]

theorem size_passed (mask : UInt64) (state : Array UInt64 × List Nat) (target : Nat) :
    (passed mask state target).1.size = state.1.size := Array.size_setIfInBounds

theorem feed_passOn_of_lt (mask : UInt64) {reading : Reading Nat}
    {state : Array UInt64 × List Nat} (hlt : ∀ target ∈ reading.elements, target < state.1.size) :
    reading.feed (passOn mask) state =
      (reading.elements.foldl (passed mask) state, reading.ending) := by
  obtain ⟨elements, ending⟩ := reading
  unfold Reading.feed
  induction elements generalizing state with
  | nil => rfl
  | cons target elements ih =>
    rw [Reading.feedFrom, passOn_of_lt mask (hlt target List.mem_cons_self)]
    apply ih
    intro other hother
    rw [size_passed]
    exact hlt other (List.mem_cons_of_mem _ hother)

/-- The targets of a node are passed on without a failure only if all of them are nodes. -/
theorem lt_of_feed_passOn (mask : UInt64) {reading : Reading Nat}
    {state after : Array UInt64 × List Nat}
    (h : reading.feed (passOn mask) state = (after, .ok ())) :
    ∀ target ∈ reading.elements, target < state.1.size := by
  obtain ⟨elements, ending⟩ := reading
  unfold Reading.feed at h
  induction elements generalizing state with
  | nil => exact fun target htarget ↦ absurd htarget List.not_mem_nil
  | cons first elements ih =>
    rw [Reading.feedFrom] at h
    by_cases hfirst : first < state.1.size
    · rw [passOn_of_lt mask hfirst] at h
      have hrest := ih h
      rw [size_passed] at hrest
      exact List.forall_mem_cons.mpr ⟨hfirst, hrest⟩
    · rw [passOn_of_le mask (not_lt.mp hfirst)] at h
      cases congrArg Prod.snd h

/-- What has been passed on so far: the bits of the masks, and the candidates, which are the nodes
that have some bit. -/
structure Gathered (count : Nat) (bits : Nat → Nat → Prop) (state : Array UInt64 × List Nat) :
    Prop where
  size_eq : state.1.size = count
  hasBit_iff : ∀ node bit, HasBit state.1 node bit ↔ bits node bit
  nodup : state.2.Nodup
  mem_iff : ∀ node, node ∈ state.2 ↔ maskOf state.1 node ≠ 0

variable {count : Nat} {bits : Nat → Nat → Prop} {gathered : Array UInt64 × List Nat}

theorem Gathered.congr {bits' : Nat → Nat → Prop} (h : Gathered count bits gathered)
    (hbits : ∀ node bit, bits node bit ↔ bits' node bit) : Gathered count bits' gathered :=
  ⟨h.size_eq, fun node bit ↦ (h.hasBit_iff node bit).trans (hbits node bit), h.nodup, h.mem_iff⟩

theorem Gathered.passed {mask : UInt64} {target : Nat} (h : Gathered count bits gathered)
    (hmask : mask ≠ 0) (htarget : target < count) :
    Gathered count (fun node bit ↦ bits node bit ∨ node = target ∧ mask.toNat.testBit bit = true)
      (passed mask gathered target) := by
  have hlt : target < gathered.1.size := h.size_eq.symm ▸ htarget
  have hmaskOf (node : Nat) : maskOf (SharedVisit.passed mask gathered target).1 node =
      if target = node then maskOf gathered.1 target ||| mask else maskOf gathered.1 node := by
    rw [SharedVisit.passed, maskOf_setIfInBounds]
    simp only [hlt, and_true]
  constructor
  · rw [size_passed, h.size_eq]
  · intro node bit
    rw [HasBit, hmaskOf, ← h.hasBit_iff]
    by_cases hnode : target = node
    · subst hnode
      rw [if_pos rfl, testBit_or, Bool.or_eq_true, HasBit, and_iff_right rfl]
    · rw [if_neg hnode, HasBit, or_iff_left fun heq ↦ hnode heq.1.symm]
  · unfold SharedVisit.passed
    split_ifs with hzero
    · refine List.nodup_cons.mpr ⟨?_, h.nodup⟩
      rw [h.mem_iff]
      exact not_not.mpr hzero
    · exact h.nodup
  · intro node
    rw [hmaskOf]
    by_cases hnode : target = node
    · subst hnode
      obtain ⟨bit, hbit⟩ := ne_zero_iff_testBit.mp hmask
      have hne : maskOf gathered.1 target ||| mask ≠ 0 := by
        apply ne_zero_iff_testBit.mpr
        exact ⟨bit, by rw [testBit_or, hbit, Bool.or_true]⟩
      rw [if_pos rfl, iff_true_right hne, SharedVisit.passed]
      split_ifs with hzero
      · exact List.mem_cons_self
      · exact (h.mem_iff target).mpr hzero
    · rw [if_neg hnode, ← h.mem_iff, SharedVisit.passed]
      split_ifs with hzero
      · rw [List.mem_cons, or_iff_right (Ne.symm hnode)]
      · rfl

theorem Gathered.foldl_passed {mask : UInt64} (hmask : mask ≠ 0) {targets : List Nat}
    (htargets : ∀ target ∈ targets, target < count) (h : Gathered count bits gathered) :
    Gathered count (fun node bit ↦ bits node bit ∨ node ∈ targets ∧ mask.toNat.testBit bit = true)
      (targets.foldl (SharedVisit.passed mask) gathered) := by
  induction targets generalizing bits gathered with
  | nil =>
    apply h.congr
    intro node bit
    rw [or_iff_left fun hnode ↦ List.not_mem_nil hnode.1]
  | cons target targets ih =>
    obtain ⟨htarget, htargets⟩ := List.forall_mem_cons.mp htargets
    apply (ih htargets (h.passed hmask htarget)).congr
    intro node bit
    rw [or_assoc, ← or_and_right, List.mem_cons]

/-! ## Expanding the frontier -/

variable {root view after : View} {state expanded : SharedVisit} {nodes : List Nat} {node : Nat}

/-- A node that is read without a failure passes its sources on to its targets. -/
theorem visit_passOn_eq_ok {mask : UInt64} {passedOn : Array UInt64 × List Nat}
    (hview : view.fresh = root.fresh) (hgathered : Gathered count bits gathered) (hmask : mask ≠ 0)
    (h : view.visit node (passOn mask) gathered = ⟨after, passedOn, .ok ()⟩) :
    after.fresh = root.fresh ∧ root.LeadsBelow count node ∧
      Gathered count (fun target bit ↦ bits target bit ∨
        target ∈ root.targets node ∧ mask.toNat.testBit bit = true) passedOn := by
  have hfresh := view.reader_visit_fresh node (passOn mask) gathered
  have hended := view.ended_visit node (passOn mask) gathered
  rw [h] at hfresh
  rw [h, Visit.ended, View.reading_congr hview] at hended
  have hlt := lt_of_feed_passOn mask hended.symm
  rw [feed_passOn_of_lt mask hlt] at hended
  obtain ⟨rfl, hending⟩ := Prod.mk.inj hended
  rw [hgathered.size_eq] at hlt
  exact ⟨hfresh.trans hview, ⟨hending.symm, hlt⟩, hgathered.foldl_passed hmask hlt⟩

theorem size_foldl_passed (mask : UInt64) (targets : List Nat)
    (gathered : Array UInt64 × List Nat) :
    (targets.foldl (passed mask) gathered).1.size = gathered.1.size := by
  induction targets generalizing gathered with
  | nil => rfl
  | cons target targets ih => exact (ih _).trans (size_passed mask gathered target)

theorem visit_passOn_ok (mask : UInt64) (hview : view.fresh = root.fresh)
    (hsize : gathered.1.size = count) (hleads : root.LeadsBelow count node) :
    ∃ after passedOn, view.visit node (passOn mask) gathered = ⟨after, passedOn, .ok ()⟩ ∧
      after.fresh = root.fresh ∧ passedOn.1.size = count := by
  have hended := view.ended_visit node (passOn mask) gathered
  have hlt : ∀ target ∈ (root.reading node).elements, target < gathered.1.size :=
    hsize.symm ▸ hleads.2
  rw [Visit.ended, View.reading_congr hview, feed_passOn_of_lt mask hlt, hleads.1] at hended
  obtain ⟨hstate, houtcome⟩ := Prod.mk.inj hended
  have hfresh := (view.reader_visit_fresh node (passOn mask) gathered).trans hview
  generalize view.visit node (passOn mask) gathered = visit at hstate houtcome hfresh
  obtain ⟨after, passedOn, outcome⟩ := visit
  refine ⟨after, passedOn, congrArg (Visit.mk after passedOn) houtcome, hfresh, ?_⟩
  exact (congrArg (·.1.size) hstate).trans ((size_foldl_passed mask _ gathered).trans hsize)

theorem expand_cons (view : View) (state : SharedVisit) (node : Nat) (nodes : List Nat) :
    expand view state (node :: nodes) =
      let visit := view.visit node (passOn (maskOf state.visit node)) (state.next, state.candidates)
      let state := { state with
        visit := state.visit.setIfInBounds node 0
        next := visit.state.1
        candidates := visit.state.2 }
      match visit.outcome with
      | .error error => (visit.reader, state, .error error)
      | .ok () => expand visit.reader state nodes := rfl

/-- A frontier that is expanded without a failure passes its sources on to all targets. -/
theorem expand_eq_ok (hview : view.fresh = root.fresh)
    (h : expand view state nodes = (after, expanded, .ok ()))
    (hgathered : Gathered count bits (state.next, state.candidates)) (hnodup : nodes.Nodup)
    (hmasks : ∀ node ∈ nodes, maskOf state.visit node ≠ 0) :
    after.fresh = root.fresh ∧ (∀ node ∈ nodes, root.LeadsBelow count node) ∧
      ∃ next candidates, expanded = { state with
          visit := clearAll state.visit nodes
          next := next
          candidates := candidates } ∧
        Gathered count (fun target bit ↦ bits target bit ∨
          ∃ node ∈ nodes, HasBit state.visit node bit ∧ target ∈ root.targets node)
          (next, candidates) := by
  induction nodes generalizing view state bits with
  | nil =>
    obtain ⟨rfl, hrest⟩ := Prod.mk.inj h
    obtain ⟨rfl, _⟩ := Prod.mk.inj hrest
    refine ⟨hview, fun _ hnode ↦ absurd hnode List.not_mem_nil, state.next, _, rfl, ?_⟩
    refine ⟨hgathered.size_eq, ?_, List.nodup_reverse.mpr hgathered.nodup, ?_⟩
    · intro node bit
      rw [hgathered.hasBit_iff, or_iff_left]
      rintro ⟨node, hnode, _⟩
      exact List.not_mem_nil hnode
    · intro node
      exact List.mem_reverse.trans (hgathered.mem_iff node)
  | cons node nodes ih =>
    obtain ⟨hnode, hnodup⟩ := List.nodup_cons.mp hnodup
    obtain ⟨hmask, hmasks⟩ := List.forall_mem_cons.mp hmasks
    have hkeep {other : Nat} (hother : other ∈ nodes) :
        maskOf (state.visit.setIfInBounds node 0) other = maskOf state.visit other := by
      rw [maskOf_clear, if_neg]
      rintro rfl
      exact hnode hother
    rw [expand_cons] at h
    generalize hvisit : view.visit node (passOn (maskOf state.visit node))
      (state.next, state.candidates) = visit at h
    obtain ⟨reader, passedOn, outcome⟩ := visit
    cases outcome with
    | error error => exact absurd (congrArg (·.2.2) h) nofun
    | ok _ =>
      obtain ⟨hreader, hleadsNode, hstep⟩ := visit_passOn_eq_ok hview hgathered hmask hvisit
      obtain ⟨hafter, hleads, next, candidates, hexpanded, hnext⟩ :=
        ih hreader h hstep hnodup fun other hother ↦ by
          simpa only [hkeep hother] using hmasks other hother
      refine ⟨hafter, List.forall_mem_cons.mpr ⟨hleadsNode, hleads⟩, next, candidates, hexpanded,
        hnext.congr fun target bit ↦ ?_⟩
      rw [or_assoc, List.exists_mem_cons_iff]
      apply or_congr_right
      apply or_congr
      · exact and_comm
      · apply exists_congr
        intro other
        apply and_congr_right
        intro hother
        simp only [HasBit, hkeep hother]

/-- A frontier that can be read is expanded without a failure. -/
theorem expand_ok (hview : view.fresh = root.fresh) (hsize : state.next.size = count)
    (hleads : ∀ node ∈ nodes, root.LeadsBelow count node) :
    ∃ after expanded, expand view state nodes = (after, expanded, .ok ()) := by
  induction nodes generalizing view state with
  | nil => exact ⟨view, _, rfl⟩
  | cons node nodes ih =>
    obtain ⟨hleadsNode, hleads⟩ := List.forall_mem_cons.mp hleads
    obtain ⟨reader, passedOn, hvisit, hreader, hpassedOn⟩ := @visit_passOn_ok count
      (state.next, state.candidates) root view node (maskOf state.visit node) hview hsize hleadsNode
    rw [expand_cons, hvisit]
    exact ih hreader hpassedOn hleads

/-! ## Settling the candidates -/

/-- The sources that reach a node for the first time. -/
def arriving (state : SharedVisit) (node : Nat) : UInt64 :=
  maskOf state.next node &&& ~~~maskOf state.seen node

theorem testBit_arriving (state : SharedVisit) (node bit : Nat) :
    (state.arriving node).toNat.testBit bit = true ↔
      HasBit state.next node bit ∧ ¬ HasBit state.seen node bit := by
  rw [arriving, testBit_andNot, Bool.and_eq_true, Bool.not_eq_true', HasBit, HasBit,
    Bool.not_eq_true]

theorem settle_of_eq_zero {depth node : Nat} {state : SharedVisit} {arrivals : List Arrival}
    (h : state.arriving node = 0) :
    settle depth (state, arrivals) node =
      ({ state with next := state.next.setIfInBounds node 0 }, arrivals) := if_pos h

theorem settle_of_ne_zero {depth node : Nat} {state : SharedVisit} {arrivals : List Arrival}
    (h : state.arriving node ≠ 0) :
    settle depth (state, arrivals) node =
      ({ state with
          next := state.next.setIfInBounds node 0
          seen := state.seen.setIfInBounds node (maskOf state.seen node ||| state.arriving node)
          visit := state.visit.setIfInBounds node (state.arriving node)
          frontier := node :: state.frontier
          reached :=
            if maskOf state.seen node = 0 then node :: state.reached else state.reached },
        ⟨node, depth, onesOf (state.arriving node)⟩ :: arrivals) := if_neg h

/-- What settling some candidates at a depth leaves, apart from the frontier and the arrivals of the
candidates that some source reaches for the first time. -/
structure Settled (depth : Nat) (nodes : List Nat) (before after : SharedVisit × List Arrival) :
    Prop where
  size_seen : after.1.seen.size = before.1.seen.size
  size_visit : after.1.visit.size = before.1.visit.size
  next_eq : after.1.next = clearAll before.1.next nodes
  hasBit_seen : ∀ node bit, HasBit after.1.seen node bit ↔
    HasBit before.1.seen node bit ∨ node ∈ nodes ∧ HasBit before.1.next node bit
  hasBit_visit : ∀ node bit, HasBit after.1.visit node bit ↔
    HasBit before.1.visit node bit ∨
      node ∈ nodes ∧ HasBit before.1.next node bit ∧ ¬ HasBit before.1.seen node bit
  frontier_eq : after.1.frontier =
    (nodes.filter (before.1.arriving · ≠ 0)).reverse ++ before.1.frontier
  reached_subset : before.1.reached ⊆ after.1.reached
  mem_reached : ∀ node, maskOf after.1.seen node ≠ 0 →
    maskOf before.1.seen node ≠ 0 ∨ node ∈ after.1.reached
  arrivals_eq : after.2 = ((nodes.filter (before.1.arriving · ≠ 0)).map fun node ↦
    ⟨node, depth, onesOf (before.1.arriving node)⟩).reverse ++ before.2

variable {depth : Nat} {before between : SharedVisit × List Arrival}
  {ended : SharedVisit × List Arrival}

theorem settled_nil (depth : Nat) (before : SharedVisit × List Arrival) :
    Settled depth [] before before := by
  constructor
  · rfl
  · rfl
  · rfl
  · intro node bit
    rw [or_iff_left fun h ↦ List.not_mem_nil h.1]
  · intro node bit
    rw [or_iff_left fun h ↦ List.not_mem_nil h.1]
  · rfl
  · exact List.Subset.refl _
  · intro node h
    exact .inl h
  · rfl

/-- Settling a node concerns no other node. -/
theorem Settled.arriving_eq {node other : Nat} (h : Settled depth [node] before between)
    (hother : other ≠ node) : between.1.arriving other = before.1.arriving other := by
  have hmem : other ∉ [node] := by rwa [List.mem_singleton]
  have hnext : maskOf between.1.next other = maskOf before.1.next other := by
    rw [h.next_eq, maskOf_clearAll, if_neg hmem]
  apply eq_of_testBit_iff
  intro bit
  have hbit : HasBit between.1.next other bit ↔ HasBit before.1.next other bit := by
    rw [HasBit, hnext, HasBit]
  rw [testBit_arriving, testBit_arriving, h.hasBit_seen, hbit,
    or_iff_left fun hnode ↦ hmem hnode.1]

theorem Settled.cons {node : Nat} (hnode : node ∉ nodes)
    (hfirst : Settled depth [node] before between) (hrest : Settled depth nodes between ended) :
    Settled depth (node :: nodes) before ended := by
  have hne {other : Nat} (hother : other ∈ nodes) : other ≠ node := by
    rintro rfl
    exact hnode hother
  have hnext {other : Nat} (hother : other ∈ nodes) (bit : Nat) :
      HasBit between.1.next other bit ↔ HasBit before.1.next other bit := by
    rw [HasBit, HasBit, hfirst.next_eq, maskOf_clearAll,
      if_neg fun h ↦ hne hother (List.mem_singleton.mp h)]
  have hseen {other : Nat} (hother : other ∈ nodes) (bit : Nat) :
      HasBit between.1.seen other bit ↔ HasBit before.1.seen other bit := by
    rw [hfirst.hasBit_seen, or_iff_left fun h ↦ hne hother (List.mem_singleton.mp h.1)]
  have hfilter : nodes.filter (between.1.arriving · ≠ 0) =
      nodes.filter (before.1.arriving · ≠ 0) := by
    apply List.filter_congr
    intro other hother
    rw [hfirst.arriving_eq (hne hother)]
  have hsplit : (node :: nodes).filter (before.1.arriving · ≠ 0) =
      [node].filter (before.1.arriving · ≠ 0) ++ nodes.filter (before.1.arriving · ≠ 0) :=
    List.filter_append [node] nodes
  constructor
  · exact hrest.size_seen.trans hfirst.size_seen
  · exact hrest.size_visit.trans hfirst.size_visit
  · rw [hrest.next_eq, hfirst.next_eq]
    rfl
  · intro other bit
    rw [hrest.hasBit_seen, hfirst.hasBit_seen, or_assoc, and_congr_right fun h ↦ hnext h bit,
      ← or_and_right, ← List.mem_append, List.singleton_append]
  · intro other bit
    rw [hrest.hasBit_visit, hfirst.hasBit_visit, or_assoc,
      and_congr_right fun h ↦ and_congr (hnext h bit) (not_congr (hseen h bit)),
      ← or_and_right, ← List.mem_append, List.singleton_append]
  · rw [hrest.frontier_eq, hfirst.frontier_eq, hfilter, hsplit, List.reverse_append,
      List.append_assoc]
  · exact List.Subset.trans hfirst.reached_subset hrest.reached_subset
  · intro other hother
    rcases hrest.mem_reached other hother with hbetween | hreached
    · rcases hfirst.mem_reached other hbetween with hbefore | hreached
      · exact .inl hbefore
      · exact .inr (hrest.reached_subset hreached)
    · exact .inr hreached
  · rw [hrest.arrivals_eq, hfirst.arrivals_eq, hfilter, hsplit, List.map_append,
      List.reverse_append, List.append_assoc]
    congr 2
    apply List.map_congr_left
    intro other hother
    rw [hfirst.arriving_eq (hne (List.mem_of_mem_filter hother))]

theorem settled_of_eq_zero {node : Nat} (h : before.1.arriving node = 0) :
    Settled depth [node] before (settle depth before node) := by
  obtain ⟨state, arrivals⟩ := before
  rw [settle_of_eq_zero h]
  have hbit (other bit : Nat) :
      ¬ (other ∈ [node] ∧ HasBit state.next other bit ∧ ¬ HasBit state.seen other bit) := by
    rintro ⟨hmem, hfresh⟩
    rw [← testBit_arriving, List.mem_singleton.mp hmem, h, UInt64.toNat_zero,
      Nat.zero_testBit] at hfresh
    exact Bool.false_ne_true hfresh
  have hfilter : [node].filter (state.arriving · ≠ 0) = [] :=
    List.filter_cons_of_neg (by simpa using h)
  constructor
  · rfl
  · rfl
  · rfl
  · intro other bit
    apply (or_iff_left_of_imp _).symm
    rintro ⟨hmem, hnextBit⟩
    by_contra hseenBit
    exact hbit other bit ⟨hmem, hnextBit, hseenBit⟩
  · intro other bit
    exact (or_iff_left (hbit other bit)).symm
  · rw [hfilter]
    rfl
  · exact List.Subset.refl _
  · intro other hother
    exact .inl hother
  · rw [hfilter]
    rfl

theorem settled_of_ne_zero {node : Nat} (h : before.1.arriving node ≠ 0)
    (hseen : node < before.1.seen.size) (hvisit : node < before.1.visit.size)
    (hzero : maskOf before.1.visit node = 0) :
    Settled depth [node] before (settle depth before node) := by
  obtain ⟨state, arrivals⟩ := before
  rw [settle_of_ne_zero h]
  have hfilter : [node].filter (state.arriving · ≠ 0) = [node] :=
    List.filter_cons_of_pos (by simpa using h)
  constructor
  · exact Array.size_setIfInBounds
  · exact Array.size_setIfInBounds
  · rfl
  · intro other bit
    simp only [HasBit, maskOf_setIfInBounds, List.mem_singleton]
    by_cases hother : node = other
    · subst hother
      have hbit := testBit_arriving state node bit
      rw [HasBit, HasBit] at hbit
      rw [if_pos ⟨rfl, hseen⟩, testBit_or, Bool.or_eq_true, and_iff_right rfl, hbit, or_and_left,
        and_iff_left (em _)]
    · rw [if_neg fun heq ↦ hother heq.1, or_iff_left fun heq ↦ hother heq.1.symm]
  · intro other bit
    rw [List.mem_singleton, ← testBit_arriving]
    simp only [HasBit, maskOf_setIfInBounds]
    by_cases hother : node = other
    · subst hother
      rw [if_pos ⟨rfl, hvisit⟩, and_iff_right rfl, hzero, UInt64.toNat_zero, Nat.zero_testBit,
        or_iff_right Bool.false_ne_true]
    · rw [if_neg fun heq ↦ hother heq.1, or_iff_left fun heq ↦ hother heq.1.symm]
  · rw [hfilter]
    rfl
  · intro other hother
    simp only
    split_ifs with hunseen
    · exact List.mem_cons_of_mem _ hother
    · exact hother
  · intro other hother
    simp only [maskOf_setIfInBounds] at hother ⊢
    by_cases hnode : node = other
    · subst hnode
      by_cases hunseen : maskOf state.seen node = 0
      · rw [if_pos hunseen]
        exact .inr List.mem_cons_self
      · exact .inl hunseen
    · rw [if_neg fun heq ↦ hnode heq.1] at hother
      exact .inl hother
  · rw [hfilter]
    rfl

/-- Candidates that are visited by no source any more are settled one by one. -/
theorem settled_foldl (hseen : before.1.seen.size = count) (hvisit : before.1.visit.size = count)
    (hnext : before.1.next.size = count) (hnodup : nodes.Nodup)
    (hzero : ∀ node ∈ nodes, maskOf before.1.visit node = 0) :
    Settled depth nodes before (nodes.foldl (settle depth) before) := by
  induction nodes generalizing before with
  | nil => exact settled_nil depth before
  | cons node nodes ih =>
    obtain ⟨hnode, hnodup⟩ := List.nodup_cons.mp hnodup
    obtain ⟨hzeroNode, hzero⟩ := List.forall_mem_cons.mp hzero
    have hfirst : Settled depth [node] before (settle depth before node) := by
      by_cases harriving : before.1.arriving node = 0
      · exact settled_of_eq_zero harriving
      · have hlt : node < count := by
          rw [← hnext]
          apply lt_size_of_maskOf_ne_zero
          intro hmask
          apply harriving
          rw [arriving, hmask, UInt64.zero_and]
        exact settled_of_ne_zero harriving (hseen.symm ▸ hlt) (hvisit.symm ▸ hlt) hzeroNode
    apply hfirst.cons hnode
    apply ih (hfirst.size_seen.trans hseen) (hfirst.size_visit.trans hvisit) ?_ hnodup
    · intro other hother
      by_contra hmask
      obtain ⟨bit, hbit⟩ := maskOf_ne_zero_iff.mp hmask
      rcases (hfirst.hasBit_visit other bit).mp hbit with h | h
      · exact maskOf_ne_zero_iff.mpr ⟨bit, h⟩ (hzero other hother)
      · exact hnode (List.mem_singleton.mp h.1 ▸ hother)
    · rw [hfirst.next_eq, size_clearAll, hnext]

end SharedVisit

end PackedGraph
