import PackedGraph.Proofs.Centrality.Totals
import PackedGraph.Proofs.Iteration.Engine
import PackedGraph.Proofs.Iteration.Partition

/-!
# Closeness and distances

A computation of closeness ends with the numbers of nodes that reach each node and with the sums of
their distances. Neither the concurrency, nor the groups of the sources, nor the order of the
additions matter.
-/

namespace PackedGraph

open SharedVisit

/-- Pieces of a partition of the nodes are groups that can share a visit. -/
theorem isGroup_of_flatMap_eq {count : Nat} {groups : List NodeRange}
    (hgroups : groups.flatMap NodeRange.nodes = List.range count)
    (hsize : ∀ group ∈ groups, group.size ≤ sourcesPerVisit) :
    ∀ group ∈ groups, IsGroup count group.nodes := by
  intro group hgroup
  constructor
  · exact List.nodup_range'
  · intro node hnode
    rw [← List.mem_range, ← hgroups]
    exact List.mem_flatMap_of_mem hgroup hnode
  · rw [NodeRange.nodes, List.length_range']
    exact hsize group hgroup

namespace ClosenessStep

variable {root : View} {step after : ClosenessStep} {world final : ClosenessWorld}
  {groups : List NodeRange}

/-- Groups that are visited without a failure add their arrivals, one group after another. -/
theorem visitGroups_eq_ok (hview : step.view.fresh = root.fresh)
    (hvisit : Reusable root step.visit)
    (hgroups : ∀ group ∈ groups, IsGroup root.nodeCount group.nodes)
    (h : step.visitGroups world groups = (after, final, .ok ())) :
    ∃ parts, List.Forall₂ (Reports root) groups parts ∧
      final = parts.flatten.foldl addArrival world := by
  induction groups generalizing step world with
  | nil =>
    obtain ⟨_, hrest⟩ := Prod.mk.inj h
    exact ⟨[], .nil, (Prod.mk.inj hrest).1.symm⟩
  | cons group groups ih =>
    obtain ⟨hgroup, hgroups⟩ := List.forall_mem_cons.mp hgroups
    rw [visitGroups] at h
    generalize hrun : step.visit.run step.view group = ended at h
    obtain ⟨view, visit, outcome⟩ := ended
    cases outcome with
    | error error => exact absurd (congrArg (·.2.2) h) nofun
    | ok arrivals =>
      have hfresh := (hvisit.clean.run_eq_ok hgroup hview hrun).1
      obtain ⟨parts, hparts, hfinal⟩ := @ih { step with view, visit } _ hfresh
        (hvisit.run hview hgroup hrun) hgroups h
      refine ⟨arrivals :: parts, .cons ⟨hgroup, _, _, _, _, hview, hvisit, hrun⟩ hparts, ?_⟩
      rw [List.flatten_cons, List.foldl_append]
      exact hfinal

theorem visitGroups_ok (hview : step.view.fresh = root.fresh) (hvisit : Reusable root step.visit)
    (hgroups : ∀ group ∈ groups, IsGroup root.nodeCount group.nodes)
    (hleads : ∀ node < root.nodeCount, root.LeadsBelow root.nodeCount node) :
    ∃ after final, step.visitGroups world groups = (after, final, .ok ()) := by
  induction groups generalizing step world with
  | nil => exact ⟨step, world, rfl⟩
  | cons group groups ih =>
    obtain ⟨hgroup, hgroups⟩ := List.forall_mem_cons.mp hgroups
    obtain ⟨view, visit, arrivals, hrun⟩ := hvisit.clean.run_ok hgroup hview hleads
    have hfresh := (hvisit.clean.run_eq_ok hgroup hview hrun).1
    simp only [visitGroups, hrun]
    exact ih hfresh (hvisit.run hview hgroup hrun) hgroups

/-- The step for a range of sources when a computation starts. -/
def first (root : View) (range : NodeRange) : ClosenessStep := ⟨root.fresh, range, .blank⟩

theorem compute_first (root : View) (range : NodeRange) (world : ClosenessWorld) :
    (first root range).compute world =
      let visited := visitGroups ⟨root.fresh, range, blank.resize root.nodeCount⟩ world
        (range.split sourcesPerVisit)
      (visited.1, visited.2.1, visited.2.2.map fun _ ↦ false) := by
  rw [compute, first]
  simp only [View.nodeCount_fresh]

theorem sweep_first_cons (root : View) (range : NodeRange) (ranges : List NodeRange)
    (world : ClosenessWorld) :
    computation.sweep 0 ((range :: ranges).map (first root)) world =
      match (first root range).compute world with
      | (step, world, .error e) => (step :: ranges.map (first root), world, .error e)
      | (step, world, .ok changed) =>
        let later := computation.sweep 0 (ranges.map (first root)) world
        (step :: later.1, later.2.1, later.2.2.map (changed || ·)) := by
  have hcompute : computation.compute 0 (first root range) world =
      (first root range).compute world := rfl
  rw [List.map_cons, Computation.sweep, hcompute]
  generalize (first root range).compute world = computed
  obtain ⟨step, between, outcome⟩ := computed
  cases outcome <;> rfl

variable {ranges : List NodeRange} {steps : List ClosenessStep}

/-- The steps of a computation that does not fail add the arrivals of all their groups. -/
theorem sweep_eq_ok (root : View) {changed : Bool}
    (hgroups : ∀ group ∈ ranges.flatMap (·.split sourcesPerVisit),
      IsGroup root.nodeCount group.nodes)
    (h : computation.sweep 0 (ranges.map (first root)) world = (steps, final, .ok changed)) :
    changed = false ∧
      ∃ parts, List.Forall₂ (Reports root) (ranges.flatMap (·.split sourcesPerVisit)) parts ∧
        final = parts.flatten.foldl addArrival world := by
  induction ranges generalizing world steps final changed with
  | nil =>
    obtain ⟨_, hrest⟩ := Prod.mk.inj h
    obtain ⟨rfl, hchanged⟩ := Prod.mk.inj hrest
    exact ⟨(Except.ok.inj hchanged).symm, [], .nil, rfl⟩
  | cons range ranges ih =>
    rw [List.flatMap_cons, List.forall_mem_append] at hgroups
    rw [sweep_first_cons, compute_first] at h
    generalize hvisit : visitGroups ⟨root.fresh, range, blank.resize root.nodeCount⟩ world
      (range.split sourcesPerVisit) = visited at h
    obtain ⟨step, between, outcome⟩ := visited
    cases outcome with
    | error error => exact absurd (congrArg (·.2.2) h) nofun
    | ok _ =>
      obtain ⟨parts, hparts, rfl⟩ := visitGroups_eq_ok root.fresh_fresh .new hgroups.1 hvisit
      simp only [Except.map] at h
      generalize hlater : computation.sweep 0 (ranges.map (first root)) _ = later at h
      obtain ⟨laterSteps, laterWorld, laterOutcome⟩ := later
      cases laterOutcome with
      | error error => exact absurd (congrArg (·.2.2) h) nofun
      | ok laterChanged =>
        obtain ⟨rfl, laterParts, hlaterParts, rfl⟩ := ih hgroups.2 hlater
        simp only [Prod.mk.injEq, Except.ok.injEq] at h
        obtain ⟨_, rfl, rfl⟩ := h
        refine ⟨rfl, parts ++ laterParts, ?_, ?_⟩
        · rw [List.flatMap_cons]
          exact List.rel_append hparts hlaterParts
        · rw [List.flatten_append, List.foldl_append]

theorem sweep_ok (root : View) (world : ClosenessWorld)
    (hgroups : ∀ group ∈ ranges.flatMap (·.split sourcesPerVisit),
      IsGroup root.nodeCount group.nodes)
    (hleads : ∀ node < root.nodeCount, root.LeadsBelow root.nodeCount node) :
    ∃ steps final,
      computation.sweep 0 (ranges.map (first root)) world = (steps, final, .ok false) := by
  induction ranges generalizing world with
  | nil => exact ⟨[], world, rfl⟩
  | cons range ranges ih =>
    rw [List.flatMap_cons, List.forall_mem_append] at hgroups
    rw [sweep_first_cons, compute_first]
    obtain ⟨step, between, hvisit⟩ := @visitGroups_ok root
      ⟨root.fresh, range, blank.resize root.nodeCount⟩ world _ root.fresh_fresh .new hgroups.1
      hleads
    obtain ⟨steps, final, hlater⟩ := ih between hgroups.2
    refine ⟨step :: steps, final, ?_⟩
    simp only [hvisit, Except.map, hlater, Bool.or_self]

end ClosenessStep

namespace Closeness

/-- The groups of sources in the order in which the steps visit them one after another. -/
def groups (count concurrency : Nat) : List NodeRange :=
  (rangePartition count (batchCount concurrency) sourcesPerVisit).flatMap
    (·.split sourcesPerVisit)

theorem flatMap_groups (count concurrency : Nat) :
    (groups count concurrency).flatMap NodeRange.nodes = List.range count := by
  rw [groups, List.flatMap_assoc, ← flatMap_rangePartition count (batchCount concurrency)
    sourcesPerVisit]
  congr 1
  funext range
  exact range.flatMap_split (by decide)

theorem isGroup_of_mem_groups (count concurrency : Nat) :
    ∀ group ∈ groups count concurrency, IsGroup count group.nodes := by
  apply isGroup_of_flatMap_eq (flatMap_groups count concurrency)
  intro group hgroup
  obtain ⟨range, _, hsplit⟩ := List.mem_flatMap.mp hgroup
  exact NodeRange.size_le_of_mem_split hsplit

theorem distances_eq (view : View) (concurrency : Nat) (isTerminated : Bool) :
    distances view concurrency isTerminated =
      let ended := ClosenessStep.computation.run (1 ≤ ·)
        ((rangePartition view.nodeCount (batchCount concurrency) sourcesPerVisit).map
          (ClosenessStep.first view)) (zeroCounters view.nodeCount isTerminated)
      match ended.result with
      | .error error => .error (.run error)
      | .ok _ => .ok (ended.world.farness, ended.world.component) := by
  set ended := ClosenessStep.computation.run (1 ≤ ·)
    ((rangePartition view.nodeCount (batchCount concurrency) sourcesPerVisit).map
      (ClosenessStep.first view)) (zeroCounters view.nodeCount isTerminated)
  have hdistances : distances view concurrency isTerminated = (do
      discard (ended.result.mapError AlgorithmError.run)
      return (ended.world.farness, ended.world.component)) := rfl
  rw [hdistances]
  clear_value ended
  obtain ⟨steps, world, result⟩ := ended
  cases result <;> rfl

/-- The counters that a computation ends with are those after the additions of all groups. -/
theorem distances_eq_ok {view : View} {concurrency : Nat} {isTerminated : Bool}
    {farness component : Array UInt64}
    (h : distances view concurrency isTerminated = .ok (farness, component)) :
    ∃ parts, List.Forall₂ (Reports view) (groups view.nodeCount concurrency) parts ∧
      let world := (parts.flatten.flatMap Arrival.additions).foldl Addition.perform
        (zeroCounters view.nodeCount isTerminated)
      farness = world.farness ∧ component = world.component := by
  rw [distances_eq] at h
  cases isTerminated with
  | true =>
    rw [Computation.run_once_of_terminated rfl] at h
    exact absurd h nofun
  | false =>
    generalize hsweep : ClosenessStep.computation.sweep 0
      ((rangePartition view.nodeCount (batchCount concurrency) sourcesPerVisit).map
        (ClosenessStep.first view)) (zeroCounters view.nodeCount false) = swept
    obtain ⟨steps, final, outcome⟩ := swept
    cases outcome with
    | error error =>
      rw [Computation.run_once_of_failed rfl hsweep] at h
      exact absurd h nofun
    | ok changed =>
      obtain ⟨rfl, parts, hparts, rfl⟩ := ClosenessStep.sweep_eq_ok view
        (isGroup_of_mem_groups view.nodeCount concurrency) hsweep
      rw [Computation.run_once_of_unchanged rfl hsweep] at h
      simp only [Except.ok.injEq, Prod.mk.injEq] at h
      obtain ⟨rfl, rfl⟩ := h
      refine ⟨parts, hparts, ?_⟩
      rw [foldl_addArrival_eq]
      exact ⟨rfl, rfl⟩

theorem distances_ok {view : View} (concurrency : Nat)
    (hleads : ∀ node < view.nodeCount, view.LeadsBelow view.nodeCount node) :
    ∃ farness component, distances view concurrency false = .ok (farness, component) := by
  obtain ⟨steps, final, hsweep⟩ := ClosenessStep.sweep_ok view
    (zeroCounters view.nodeCount false) (isGroup_of_mem_groups view.nodeCount concurrency) hleads
  rw [distances_eq, Computation.run_once_of_unchanged rfl hsweep]
  exact ⟨final.farness, final.component, rfl⟩

/-- The component of each node is the number of other nodes that reach it, and its farness is the
sum of the lengths of shortest walks from these nodes. -/
structure SumDistances (view : View) (farness component : Array UInt64) : Prop where
  component_eq : component.toList.map UInt64.toNat = (List.range view.nodeCount).map fun node ↦
    (reaching view.targets (List.range view.nodeCount) node).length
  farness_eq : farness.toList.map UInt64.toNat = (List.range view.nodeCount).map fun node ↦
    ((reaching view.targets (List.range view.nodeCount) node).map
      (distance view.targets · node)).sum

section Additions

variable {view : View} {groups : List NodeRange} {parts : List (List Arrival)}
  {additions : List Addition}

theorem added_eq_total (hcount : view.nodeCount ≤ 2 ^ 32)
    (hgroups : (groups.flatMap NodeRange.nodes).Perm (List.range view.nodeCount))
    (hparts : List.Forall₂ (Reports view) groups parts)
    (hadditions : additions.Perm (parts.flatten.flatMap Arrival.additions)) (counter : Counter)
    (node : Nat) :
    added additions counter node =
      total view.targets (List.range view.nodeCount) counter.weight node := by
  rw [added_perm hadditions, added_of_forall₂_reports hcount hparts, total_perm hgroups]

/-- No addition overflows, in whatever order the additions of some groups are performed. -/
theorem added_lt (hcount : view.nodeCount ≤ 2 ^ 32)
    (hgroups : (groups.flatMap NodeRange.nodes).Perm (List.range view.nodeCount))
    (hparts : List.Forall₂ (Reports view) groups parts)
    (hadditions : additions.Perm (parts.flatten.flatMap Arrival.additions)) (counter : Counter)
    (node : Nat) : added additions counter node < 2 ^ 64 := by
  rw [added_eq_total hcount hgroups hparts hadditions]
  apply total_lt hcount List.length_range.le
  intro source hsource node hreaches
  have hconfined := confined_of_forall₂_reports hparts
  exact hconfined.distance_lt (hgroups.mem_iff.mpr hsource) hreaches.atDistance.2

theorem sumDistances_of_perm (hcount : view.nodeCount ≤ 2 ^ 32)
    (hgroups : (groups.flatMap NodeRange.nodes).Perm (List.range view.nodeCount))
    (hparts : List.Forall₂ (Reports view) groups parts)
    (hadditions : additions.Perm (parts.flatten.flatMap Arrival.additions))
    (isTerminated : Bool) :
    let world := additions.foldl Addition.perform (zeroCounters view.nodeCount isTerminated)
    SumDistances view world.farness world.component := by
  have hcounter (counter : Counter) := counters_eq isTerminated
    fun node (_ : node < view.nodeCount) ↦ added_lt hcount hgroups hparts hadditions counter node
  constructor
  · refine (hcounter .component).trans ?_
    apply List.map_congr_left
    intro node _
    rw [added_eq_total hcount hgroups hparts hadditions, total_component]
  · refine (hcounter .farness).trans ?_
    apply List.map_congr_left
    intro node _
    rw [added_eq_total hcount hgroups hparts hadditions]
    rfl

end Additions

end Closeness

open Closeness

/-- A computation of closeness that succeeds counts the nodes that reach each node and adds up their
distances, and it succeeds on every graph that can be read. So do the additions of all groups in
whatever order, for any groups of the sources, and none of them overflows. Each visit ends after at
most as many depths as there are nodes. -/
theorem closeness_sums_distances (closeness : Closeness)
    (hcount : closeness.view.nodeCount ≤ 2 ^ 32) :
    let view := closeness.view
    let count := view.nodeCount
    (∀ after, closeness.run = (after, .ok ()) →
      SumDistances view after.farness after.component) ∧
    (closeness.isTerminated = false → (∀ node < count, view.LeadsBelow count node) →
      ∃ after, closeness.run = (after, .ok ())) ∧
    (∀ groups parts additions, (groups.flatMap NodeRange.nodes).Perm (List.range count) →
      List.Forall₂ (Reports view) groups parts →
      additions.Perm (parts.flatten.flatMap Arrival.additions) →
      let world (performed : List Addition) :=
        performed.foldl Addition.perform (zeroCounters count closeness.isTerminated)
      SumDistances view (world additions).farness (world additions).component ∧
        ∀ performed, performed <+: additions → ∀ counter,
          (Counter.array (world performed) counter).toList.map UInt64.toNat =
            (List.range count).map (added performed counter)) ∧
    ∀ used state group, used.fresh = view.fresh → Reusable view state →
      IsGroup count group.nodes →
      (∀ left, count ≤ left →
        visitFrom used left 1 (state.start group.nodes) = state.run used group) ∧
      ∀ after final arrivals, state.run used group = (after, final, .ok arrivals) →
        final.frontier = [] := by
  intro view count
  refine ⟨fun after hrun ↦ ?_, fun hterminated hleads ↦ ?_, ?_, ?_⟩
  · rw [Closeness.run] at hrun
    cases hdistances : distances view closeness.concurrency closeness.isTerminated with
    | error error =>
      rw [hdistances] at hrun
      exact absurd (congrArg Prod.snd hrun) nofun
    | ok found =>
      obtain ⟨farness, component⟩ := found
      rw [hdistances] at hrun
      obtain ⟨rfl, _⟩ := Prod.mk.inj hrun
      obtain ⟨parts, hparts, rfl, rfl⟩ := distances_eq_ok hdistances
      have hgroups := flatMap_groups view.nodeCount closeness.concurrency
      exact sumDistances_of_perm hcount (.of_eq hgroups) hparts (.refl _) closeness.isTerminated
  · obtain ⟨farness, component, hdistances⟩ := distances_ok closeness.concurrency hleads
    rw [Closeness.run, hterminated, hdistances]
    exact ⟨_, rfl⟩
  · intro groups parts additions hgroups hparts hadditions world
    refine ⟨sumDistances_of_perm hcount hgroups hparts hadditions closeness.isTerminated, ?_⟩
    rintro performed ⟨later, rfl⟩ counter
    apply counters_eq
    intro node _
    have hlt := added_lt hcount hgroups hparts hadditions counter node
    rw [added_append] at hlt
    exact (Nat.le_add_right _ _).trans_lt hlt
  · intro used state group hused hstate hgroup
    refine ⟨fun left hleft ↦ ?_, fun after final arrivals hrun ↦ ?_⟩
    · exact (hstate.clean.run_eq_visitFrom hgroup used hleft).symm
    · exact (hstate.clean.run_eq_ok hgroup hused hrun).2.1.frontier_nil

/-- A cycle of three nodes, with a parallel arc and a loop. -/
def loopedCycle : View := .packed {
  ids := ⟨∅, #[5, 7, 9], ∅⟩
  columns := ∅
  topology := some ⟨{
    block := ⟨⟨4, by decide, by decide⟩, #[#[0, 1, 0, 2, 0, 2]]⟩
    index := ⟨#[⟨1, 2⟩, ⟨3, 1⟩, ⟨4, 2⟩]⟩
    elementCount := 5
    orientation := .natural
    charge := none }, .exhausted⟩
  values := none
  relationshipCount := 5
  isUndirected := false
  hasValues := false
  canRelease := true
  blockTable := 0 }

theorem closeness_sums_distances_on_loopedCycle :
    (Closeness.new loopedCycle).view.nodeCount ≤ 2 ^ 32 ∧
      ∃ after, (Closeness.new loopedCycle).run = (after, .ok ()) ∧
        SumDistances loopedCycle after.farness after.component := by
  have hcount : (Closeness.new loopedCycle).view.nodeCount ≤ 2 ^ 32 := by decide
  obtain ⟨hsums, hruns, _⟩ := closeness_sums_distances (Closeness.new loopedCycle) hcount
  have hleads : ∀ node < 3, loopedCycle.LeadsBelow 3 node
    | 0, _ => ⟨rfl, by decide⟩
    | 1, _ => ⟨rfl, by decide⟩
    | 2, _ => ⟨rfl, by decide⟩
  obtain ⟨after, hrun⟩ := hruns rfl hleads
  exact ⟨hcount, after, hrun, hsums after hrun⟩

end PackedGraph
