import Mathlib
import PackedGraph.Proofs.Arithmetic.WholeNumbers
import PackedGraph.Proofs.Community.WeightMaps
import PackedGraph.Proofs.Iteration.Course
import PackedGraph.Proofs.Iteration.Partition

/-!
# Conductance

A step accounts for the nodes of its range, and fails only on a node whose community or
relationships cannot be read. The ranges contain all nodes, however many threads there are. If
addition is exact, the weights of a community are therefore the sums of the weights of its
relationships, and they do not depend on the number of threads.
-/

namespace PackedGraph

variable {R : Type} [Scalar R]

/-! ## Readings -/

namespace Reading

variable {σ α : Type} {reading : Reading α} {consume : σ → α → Response σ} {state : σ}

/-- A consumer that never has enough gets everything if nothing fails. -/
theorem more_of_feed (hnever : ∀ state element after, consume state element ≠ .enough after)
    (h : (reading.feed consume state).2 = .ok ()) :
    reading.ending = .ok () ∧
      ∀ element ∈ reading.elements, ∃ before after, consume before element = .more after := by
  obtain ⟨elements, ending⟩ := reading
  unfold feed at h
  induction elements generalizing state with
  | nil => exact ⟨h, nofun⟩
  | cons element elements ih =>
    rw [feedFrom] at h
    cases hconsume : consume state element with
    | more after =>
      rw [hconsume] at h
      obtain ⟨hending, helements⟩ := ih h
      exact ⟨hending, List.forall_mem_cons.mpr ⟨⟨state, after, hconsume⟩, helements⟩⟩
    | enough after => exact absurd hconsume (hnever state element after)
    | broken fault =>
      rw [hconsume] at h
      cases h

end Reading

/-! ## Nodes -/

/-- The community of a node can be read, and if it has one, so can its relationships and the
communities of their targets. -/
structure View.Gatherable (view : View) (column : Column) (node : Nat) : Prop where
  exists_longValue : ∃ found, column.longValue node = .ok found
  ending_eq : column.community node ≠ none → (view.valueReading node .one).ending = .ok ()
  exists_target : column.community node ≠ none → ∀ pair ∈ view.valuedTargets node .one,
    ∃ found, column.longValue pair.1 = .ok found

theorem AssignedArc.fromNode_congr {view other : View} (h : view.fresh = other.fresh)
    {column : Column} {node : Nat} : fromNode view column node = fromNode other column node := by
  rw [fromNode, fromNode, View.valuedTargets, View.valuedTargets, View.valueReading_congr h]

theorem View.Gatherable.congr {view other : View} {column : Column} {node : Nat}
    (h : view.Gatherable column node) (hdata : view.fresh = other.fresh) :
    other.Gatherable column node := by
  obtain ⟨hlong, hending, htargets⟩ := h
  have hreading := View.valueReading_congr hdata node .one
  rw [View.valuedTargets, hreading] at htargets
  exact ⟨hlong, hreading ▸ hending, htargets⟩

theorem Column.longValue_eq_community {column : Column} {node : Nat}
    (h : ∃ found, column.longValue node = .ok found) :
    column.longValue node = .ok (column.community node) := by
  obtain ⟨found, hfound⟩ := h
  rw [community, hfound]
  rfl

namespace ConductanceStep

variable {weigh : Float → R} {view : View} {column : Column} {step after : ConductanceStep R}
variable {node : Nat} {nodes done : List Nat} {community : Int}

/-- A step reads a view and a column. -/
structure Reads (step : ConductanceStep R) (view : View) (column : Column) : Prop where
  fresh_eq : step.view.fresh = view.fresh
  communities_eq : step.communities = column

theorem addRelationship_ne_enough (weights : CommunityWeights R) (pair : Nat × ValueBits)
    (after : CommunityWeights R) :
    addRelationship weigh column community weights pair.1 pair.2 ≠ .enough after := by
  unfold addRelationship
  split
  · exact nofun
  · exact nofun
  · split_ifs <;> exact nofun

theorem exists_longValue_of_more {weights after : CommunityWeights R} {pair : Nat × ValueBits}
    (h : addRelationship weigh column community weights pair.1 pair.2 = .more after) :
    ∃ found, column.longValue pair.1 = .ok found := by
  rw [addRelationship] at h
  cases hlong : column.longValue pair.1 with
  | error fault =>
    rw [hlong] at h
    exact nomatch h
  | ok found => exact ⟨found, rfl⟩

/-- The relationship of a target, if it has a community. -/
def arc? (column : Column) (community : Int) (pair : Nat × ValueBits) : Option AssignedArc :=
  (column.community pair.1).map fun target ↦ ⟨community, target, Float.ofBits pair.2⟩

theorem addRelationship_eq {pair : Nat × ValueBits}
    (h : ∃ found, column.longValue pair.1 = .ok found) (weights : CommunityWeights R) :
    addRelationship weigh column community weights pair.1 pair.2 =
      .more ((arc? column community pair).elim weights (weights.addArc weigh)) := by
  rw [addRelationship, Column.longValue_eq_community h, arc?]
  cases column.community pair.1 with
  | none => rfl
  | some other =>
    simp only [Option.map_some, Option.elim_some, CommunityWeights.addArc]
    split_ifs <;> rfl

theorem foldl_arc? (pairs : List (Nat × ValueBits)) (weights : CommunityWeights R) :
    pairs.foldl (fun weights pair ↦
        (arc? column community pair).elim weights (weights.addArc weigh)) weights =
      (pairs.filterMap (arc? column community)).foldl (CommunityWeights.addArc weigh) weights := by
  induction pairs generalizing weights with
  | nil => rfl
  | cons pair pairs ih =>
    rw [List.foldl_cons, ih]
    cases harc : arc? column community pair with
    | none => rw [List.filterMap_cons_none harc, Option.elim_none]
    | some arc => rw [List.filterMap_cons_some harc, List.foldl_cons, Option.elim_some]

/-- The relationships of a node with a community are added to the weights of the community. -/
theorem result_visit (weigh : Float → R) (hnode : view.Gatherable column node)
    (hcommunity : column.community node = some community) (weights : CommunityWeights R) :
    (view.visitWithValues node .one (addRelationship weigh column community) weights).result =
      .ok ((AssignedArc.fromNode view column node).foldl (CommunityWeights.addArc weigh)
        weights) := by
  have hassigned : column.community node ≠ none := hcommunity ▸ nofun
  have hmore : ∀ weights, ∀ pair ∈ (view.valueReading node .one).elements,
      addRelationship weigh column community weights pair.1 pair.2 =
        .more ((arc? column community pair).elim weights (weights.addArc weigh)) :=
    fun weights pair hpair ↦ addRelationship_eq (hnode.exists_target hassigned pair hpair) weights
  have hended :=
    view.ended_visitWithValues node .one (addRelationship weigh column community) weights
  rw [Reading.feed_of_more _ hmore, hnode.ending_eq hassigned] at hended
  obtain ⟨hstate, houtcome⟩ := Prod.mk.inj hended
  have harcs : AssignedArc.fromNode view column node =
      (view.valueReading node .one).elements.filterMap (arc? column community) := by
    rw [AssignedArc.fromNode, hcommunity]
    rfl
  rw [Visit.result, houtcome, hstate, harcs, ← foldl_arc?]
  rfl

/-! ## Steps -/

/-- A node that can be read is accounted for, and the step goes on with the next one. -/
theorem exists_gather_cons (weigh : Float → R) (hreads : step.Reads view column)
    (hnode : view.Gatherable column node) (nodes : List Nat) :
    ∃ next : ConductanceStep R,
      step.gather weigh (node :: nodes) = next.gather weigh nodes ∧ next.Reads view column ∧
      ∀ done, step.weights.Accounts weigh view column done →
        next.weights.Accounts weigh view column (done ++ [node]) := by
  have hlong := Column.longValue_eq_community hnode.exists_longValue
  obtain ⟨hfresh, rfl⟩ := hreads
  rw [gather, hlong]
  cases hcommunity : step.communities.community node with
  | none => exact ⟨step, rfl, ⟨hfresh, rfl⟩, fun done h ↦ h.skip hcommunity⟩
  | some community =>
    have hstep := hnode.congr hfresh.symm
    have hresult := result_visit weigh hstep hcommunity (step.weights.weightsOf community)
    rw [AssignedArc.fromNode_congr hfresh] at hresult
    simp only [hresult]
    exact ⟨_, rfl, ⟨(step.view.reader_visitWithValues_fresh node .one _ _).trans hfresh, rfl⟩,
      fun done h ↦ h.insert hcommunity⟩

theorem gatherable_of_gather_cons (hreads : step.Reads view column)
    (h : step.gather weigh (node :: nodes) = .ok after) : view.Gatherable column node := by
  obtain ⟨hfresh, rfl⟩ := hreads
  rw [gather] at h
  cases hlong : step.communities.longValue node with
  | error fault =>
    rw [hlong] at h
    exact nomatch h
  | ok found =>
    have hcommunity : step.communities.community node = found := by
      rw [Column.community, hlong]
      rfl
    cases found with
    | none =>
      exact ⟨⟨none, hlong⟩, fun hne ↦ absurd hcommunity hne, fun hne ↦ absurd hcommunity hne⟩
    | some community =>
      rw [hlong] at h
      have hended := step.view.ended_visitWithValues node .one
        (addRelationship weigh step.communities community) (step.weights.weightsOf community)
      cases hresult : (step.view.visitWithValues node .one
          (addRelationship weigh step.communities community)
          (step.weights.weightsOf community)).result with
      | error error =>
        simp only [hresult] at h
        exact nomatch h
      | ok weights =>
        obtain ⟨_, houtcome, _⟩ := exists_of_map_eq_ok hresult
        obtain ⟨hending, htargets⟩ := Reading.more_of_feed
          (fun weights pair after ↦ addRelationship_ne_enough weights pair after)
          ((congrArg Prod.snd hended).symm.trans houtcome)
        have hstep : step.view.Gatherable step.communities node := by
          refine ⟨⟨some community, hlong⟩, fun _ ↦ hending, fun _ pair hpair ↦ ?_⟩
          obtain ⟨before, after, hmore⟩ := htargets pair hpair
          exact exists_longValue_of_more hmore
        exact hstep.congr hfresh

theorem gatherable_of_gather (hreads : step.Reads view column)
    (h : step.gather weigh nodes = .ok after) : ∀ node ∈ nodes, view.Gatherable column node := by
  induction nodes generalizing step with
  | nil => exact nofun
  | cons node nodes ih =>
    have hnode := gatherable_of_gather_cons hreads h
    obtain ⟨next, hnext, hreads, _⟩ := exists_gather_cons weigh hreads hnode nodes
    exact List.forall_mem_cons.mpr ⟨hnode, ih hreads (hnext.symm.trans h)⟩

theorem exists_gather (hreads : step.Reads view column)
    (hnodes : ∀ node ∈ nodes, view.Gatherable column node)
    (h : step.weights.Accounts weigh view column done) :
    ∃ after, step.gather weigh nodes = .ok after ∧
      after.weights.Accounts weigh view column (done ++ nodes) := by
  induction nodes generalizing step done with
  | nil => exact ⟨step, rfl, by rwa [List.append_nil]⟩
  | cons node nodes ih =>
    obtain ⟨hnode, hrest⟩ := List.forall_mem_cons.mp hnodes
    obtain ⟨next, hnext, hreads, haccounts⟩ := exists_gather_cons weigh hreads hnode nodes
    obtain ⟨after, hafter, hdone⟩ := ih hreads hrest (haccounts done h)
    refine ⟨after, hnext.trans hafter, ?_⟩
    rwa [List.append_assoc, List.singleton_append] at hdone

/-! ## Runs -/

variable {ranges : List NodeRange}

/-- The steps that start with empty maps. -/
def start (view : View) (column : Column) (ranges : List NodeRange) : List (ConductanceStep R) :=
  ranges.map fun range ↦ ⟨view.fresh, range, column, ∅⟩

omit [Scalar R] in
theorem reads_start (view : View) (column : Column) (range : NodeRange) :
    Reads (⟨view.fresh, range, column, ∅⟩ : ConductanceStep R) view column :=
  ⟨view.fresh_fresh, rfl⟩

theorem exists_sweep (weigh : Float → R)
    (hnodes : ∀ node ∈ ranges.flatMap NodeRange.nodes, view.Gatherable column node) (flag : Bool) :
    ∃ swept, (computation weigh).sweep 0 (start view column ranges) flag =
        (swept, flag, .ok false) ∧
      List.Forall₂ (fun range step ↦ step.weights.Accounts weigh view column range.nodes) ranges
        swept := by
  induction ranges with
  | nil => exact ⟨[], rfl, .nil⟩
  | cons range ranges ih =>
    rw [List.flatMap_cons, List.forall_mem_append] at hnodes
    obtain ⟨hrange, hranges⟩ := hnodes
    obtain ⟨swept, hsweep, hswept⟩ := ih hranges
    obtain ⟨after, hafter, haccounts⟩ := exists_gather (reads_start view column range) hrange
      (.empty : WeightMap.Accounts weigh view column [] ∅)
    have hcompute : (computation weigh).compute 0 ⟨view.fresh, range, column, ∅⟩ flag =
        (after, flag, .ok false) := by
      simp only [computation, hafter]
    refine ⟨after :: swept, ?_, .cons haccounts hswept⟩
    have hcons : start view column (range :: ranges) =
        (⟨view.fresh, range, column, ∅⟩ : ConductanceStep R) :: start view column ranges := rfl
    rw [hcons, Computation.sweep, hcompute]
    simp only [hsweep]
    rfl

theorem gatherable_of_sweep {swept : List (ConductanceStep R)} {flag later changed : Bool}
    (h : (computation weigh).sweep 0 (start view column ranges) flag =
      (swept, later, .ok changed)) :
    ∀ node ∈ ranges.flatMap NodeRange.nodes, view.Gatherable column node := by
  induction ranges generalizing flag swept changed with
  | nil => exact nofun
  | cons range ranges ih =>
    obtain ⟨moved, between, _, others, rest, hcompute, hrest, _⟩ :=
      Computation.exists_of_sweep_cons h
    rw [List.flatMap_cons, List.forall_mem_append]
    refine ⟨?_, ih hrest⟩
    cases hgather : gather weigh ⟨view.fresh, range, column, ∅⟩ range.nodes with
    | error error =>
      simp only [computation, hgather] at hcompute
      exact nomatch congrArg (·.2.2) hcompute
    | ok after => exact gatherable_of_gather (reads_start view column range) hgather

/-- The maps of the steps together account for all nodes of their ranges. -/
theorem accounts_combine {steps : List (ConductanceStep R)}
    (h : List.Forall₂ (fun range step ↦ step.weights.Accounts weigh view column range.nodes) ranges
      steps) :
    (combine steps).Accounts weigh view column (ranges.flatMap NodeRange.nodes) := by
  have hrest {ranges : List NodeRange} {steps : List (ConductanceStep R)}
      (h : List.Forall₂ (fun range step ↦ step.weights.Accounts weigh view column range.nodes)
        ranges steps) {total : WeightMap R} {done : List Nat}
      (htotal : total.Accounts weigh view column done) :
      (steps.foldl (fun total step ↦ total.addAll step.weights.toList) total).Accounts weigh view
        column (done ++ ranges.flatMap NodeRange.nodes) := by
    induction h generalizing total done with
    | nil => rwa [List.flatMap_nil, List.append_nil]
    | cons hstep _ ih =>
      rw [List.flatMap_cons, ← List.append_assoc]
      exact ih (htotal.addAll hstep)
  exact hrest h .empty

end ConductanceStep

section Runs

open ConductanceStep

variable {weigh : Float → R} {view : View} {key : String} {column : Column} {concurrency : Nat}
variable {isTerminated : Bool} {weights : WeightMap R}

theorem communityWeights_eq (hcolumn : view.columnFor .community key = .ok column)
    {ranges : List NodeRange}
    (hranges : degreePartition view (batchCount concurrency) = .ok ranges) :
    communityWeights weigh view key concurrency isTerminated =
      let ended := (computation weigh).run (1 ≤ ·) (start view column ranges) isTerminated
      match ended.result with
      | .error error => .error (.run error)
      | .ok _ => .ok (combine ended.steps) := by
  set ended := (computation weigh).run (1 ≤ ·) (start view column ranges) isTerminated
  have hweights : communityWeights weigh view key concurrency isTerminated = (do
      discard (ended.result.mapError AlgorithmError.run)
      return combine ended.steps) := by
    rw [communityWeights, hcolumn, hranges]
    rfl
  rw [hweights]
  clear_value ended
  obtain ⟨steps, world, result⟩ := ended
  cases result <;> rfl

/-- A run succeeds with any number of threads if everything can be read. -/
theorem exists_communityWeights (weigh : Float → R)
    (hcolumn : view.columnFor .community key = .ok column)
    (hdegrees : ∀ node < view.nodeCount, ∃ degree, view.degree node = .ok degree)
    (hnodes : ∀ node < view.nodeCount, view.Gatherable column node) (concurrency : Nat) :
    ∃ weights, communityWeights weigh view key concurrency false = .ok weights ∧
      weights.Accounts weigh view column (List.range view.nodeCount) := by
  obtain ⟨ranges, hranges⟩ := exists_degreePartition_iff.mpr hdegrees
  have hsplit := flatMap_degreePartition hranges
  obtain ⟨swept, hsweep, hswept⟩ := exists_sweep weigh
    (fun node hnode ↦ hnodes node (List.mem_range.mp (hsplit ▸ hnode))) false
  have haccounts := accounts_combine hswept
  rw [hsplit] at haccounts
  rw [communityWeights_eq hcolumn hranges, Computation.run_once_of_unchanged rfl hsweep]
  have hreleased : swept.map (computation weigh).release = swept := List.map_id swept
  rw [hreleased]
  exact ⟨_, rfl, haccounts⟩

/-- Everything can be read if a run succeeds. -/
theorem readable_of_communityWeights
    (h : communityWeights weigh view key concurrency isTerminated = .ok weights) :
    isTerminated = false ∧ ∃ column, view.columnFor .community key = .ok column ∧
      (∀ node < view.nodeCount, ∃ degree, view.degree node = .ok degree) ∧
      ∀ node < view.nodeCount, view.Gatherable column node := by
  obtain ⟨column, hcolumn, hrest⟩ := exists_of_bind_eq_ok h
  obtain ⟨ranges, hranges, _⟩ := exists_of_bind_eq_ok hrest
  replace hcolumn := eq_ok_of_mapError_eq_ok hcolumn
  replace hranges := eq_ok_of_mapError_eq_ok hranges
  rw [communityWeights_eq hcolumn hranges] at h
  cases isTerminated with
  | true =>
    rw [Computation.run_once_of_terminated rfl] at h
    exact nomatch h
  | false =>
    rcases hsweep : (computation weigh).sweep 0 (start view column ranges) false with
      ⟨swept, later, error | changed⟩
    · rw [Computation.run_once_of_failed rfl hsweep] at h
      exact nomatch h
    · refine ⟨rfl, column, hcolumn, exists_degreePartition_iff.mp ⟨ranges, hranges⟩, ?_⟩
      intro node hnode
      apply gatherable_of_sweep hsweep
      rw [flatMap_degreePartition hranges]
      exact List.mem_range.mpr hnode

/-- A successful run accounts for all nodes. -/
theorem accounts_communityWeights (hcolumn : view.columnFor .community key = .ok column)
    (h : communityWeights weigh view key concurrency isTerminated = .ok weights) :
    weights.Accounts weigh view column (List.range view.nodeCount) := by
  obtain ⟨rfl, found, hfound, hdegrees, hnodes⟩ := readable_of_communityWeights h
  obtain rfl := Except.ok.inj (hfound.symm.trans hcolumn)
  obtain ⟨others, hothers, haccounts⟩ :=
    exists_communityWeights weigh hcolumn hdegrees hnodes concurrency
  rwa [Except.ok.inj (h.symm.trans hothers)]

end Runs

theorem Conductance.run_eq_ok_iff {conductance after : Conductance} :
    conductance.run = (after, .ok ()) ↔
      ∃ weights, communityWeights id conductance.view conductance.key conductance.concurrency
          conductance.isTerminated = .ok weights ∧ { conductance with weights } = after := by
  rw [run]
  cases communityWeights id conductance.view conductance.key conductance.concurrency
    conductance.isTerminated with
  | error error => simp
  | ok weights => simp

/-- A run succeeds if it is not terminated and everything can be read, and only then. If addition is
exact on the weights of the relationships between nodes with communities, as it is on whole numbers
whose absolute values add up to less than 2⁵³, it gives an entry to each community that some node
has, and to no other. The entry consists of the sum of the weights of the relationships inside the
community, and of those to other communities. All entries add up to the sum of the weights. With any
other number of threads a run gives the same entries, and the same conductances. -/
theorem conductance_weights_are_exact_sums (conductance : Conductance) {column : Column}
    (hcolumn : conductance.view.columnFor .community conductance.key = .ok column) :
    let view := conductance.view
    let nodes := List.range view.nodeCount
    let assigned := assignedWeights id view column nodes
    ((∃ after, conductance.run = (after, .ok ())) ↔ conductance.isTerminated = false ∧
      (∀ node < view.nodeCount, ∃ degree, view.degree node = .ok degree) ∧
      ∀ node < view.nodeCount, view.Gatherable column node) ∧
    (∀ whole : Float → Int, (∀ weight ∈ assigned, weight = Float.ofInt (whole weight)) →
      (assigned.map fun weight ↦ (whole weight).natAbs).sum < 2 ^ 53 →
      Scalar.AddExactly (assigned : Multiset Float)) ∧
    ∀ after, conductance.run = (after, .ok ()) → Scalar.AddExactly (assigned : Multiset Float) →
      (∀ community, after.weights[community]? =
        if ∃ node ∈ nodes, column.community node = some community then
          some ⟨Scalar.sum (arcWeights id view column nodes .internal community),
            Scalar.sum (arcWeights id view column nodes .external community)⟩
        else none) ∧
      Scalar.sum (after.weights.toList.map fun entry ↦ entry.2.internal + entry.2.external) =
        Scalar.sum assigned ∧
      ∀ concurrency, ∃ other, { conductance with concurrency }.run = (other, .ok ()) ∧
        other.weights.toList = after.weights.toList ∧ other.conductances = after.conductances := by
  intro view nodes assigned
  refine ⟨⟨?_, ?_⟩, fun whole hwhole hlt ↦ ?_, fun after hrun hexact ↦ ?_⟩
  · rintro ⟨after, hrun⟩
    obtain ⟨weights, hweights, _⟩ := Conductance.run_eq_ok_iff.mp hrun
    obtain ⟨hterminated, found, hfound, hdegrees, hnodes⟩ := readable_of_communityWeights hweights
    obtain rfl := Except.ok.inj (hfound.symm.trans hcolumn)
    exact ⟨hterminated, hdegrees, hnodes⟩
  · rintro ⟨hterminated, hdegrees, hnodes⟩
    obtain ⟨weights, hweights, _⟩ :=
      exists_communityWeights id hcolumn hdegrees hnodes conductance.concurrency
    exact ⟨_, Conductance.run_eq_ok_iff.mpr ⟨weights, hterminated ▸ hweights, rfl⟩⟩
  · exact WholeNumbers.addExactly whole hwhole hlt
  · obtain ⟨weights, hweights, rfl⟩ := Conductance.run_eq_ok_iff.mp hrun
    have haccounts := accounts_communityWeights hcolumn hweights
    refine ⟨fun community ↦ haccounts.getElem?_eq hexact, haccounts.sum_toList hexact, ?_⟩
    intro concurrency
    obtain ⟨hterminated, found, hfound, hdegrees, hnodes⟩ := readable_of_communityWeights hweights
    obtain rfl := Except.ok.inj (hfound.symm.trans hcolumn)
    obtain ⟨others, hothers, hsame⟩ :=
      exists_communityWeights id hcolumn hdegrees hnodes concurrency
    have hentries := hsame.toList_eq haccounts hexact
    refine ⟨_, Conductance.run_eq_ok_iff.mpr ⟨others, hterminated ▸ hothers, rfl⟩, hentries, ?_⟩
    rw [Conductance.conductances, hentries]
    rfl

/-- The communities of four nodes, the last of which has none. -/
def fourCommunities : Column := .long #[1, 1, 2, Column.missingLong]

/-- Three nodes on a cycle, with a parallel arc and a loop, and a node without a community. -/
def assignedCycle : View := .packed {
  ids := ⟨∅, #[5, 7, 9, 11], ∅⟩
  columns := (∅ : Std.TreeMap String Column).insert "c" fourCommunities
  topology := some ⟨{
    block := ⟨⟨6, by decide, by decide⟩, #[#[0, 1, 0, 2, 1, 0, 2, 0]]⟩
    index := ⟨#[⟨1, 2⟩, ⟨3, 2⟩, ⟨5, 2⟩, ⟨7, 1⟩]⟩
    elementCount := 7
    orientation := .natural
    charge := none }, .exhausted⟩
  values := none
  relationshipCount := 7
  isUndirected := false
  hasValues := false
  canRelease := true
  blockTable := 0 }

theorem gatherable_assignedCycle :
    ∀ node < 4, assignedCycle.Gatherable fourCommunities node := by
  have hlong : ∀ node < 4, ∃ found, fourCommunities.longValue node = .ok found
    | 0, _ | 1, _ | 2, _ | 3, _ => ⟨_, rfl⟩
  have hreads : ∀ node < 4, (assignedCycle.valueReading node .one).ending = .ok () ∧
      ∀ pair ∈ assignedCycle.valuedTargets node .one, pair.1 < 4
    | 0, _ | 1, _ | 2, _ | 3, _ => ⟨rfl, by decide⟩
  intro node hnode
  obtain ⟨hending, htargets⟩ := hreads node hnode
  exact ⟨hlong node hnode, fun _ ↦ hending, fun _ pair hpair ↦ hlong pair.1 (htargets pair hpair)⟩

theorem conductance_weights_are_exact_sums_on_assignedCycle :
    assignedCycle.columnFor .community "c" = .ok fourCommunities ∧
      ∃ after, (Conductance.new assignedCycle "c").run = (after, .ok ()) ∧
        after.weights[(1 : Int)]? = some ⟨2.0, 1.0⟩ ∧ after.weights[(2 : Int)]? = some ⟨1.0, 1.0⟩ ∧
        after.weights[(3 : Int)]? = none ∧
        Scalar.sum (after.weights.toList.map fun entry ↦ entry.2.internal + entry.2.external) =
          5.0 := by
  have hcolumn : (Conductance.new assignedCycle "c").view.columnFor .community "c" =
      .ok fourCommunities := by
    have hget : assignedCycle.column? "c" = some fourCommunities := Std.TreeMap.getElem?_insert_self
    rw [View.columnFor, Conductance.new, hget]
    rfl
  obtain ⟨hsucceeds, _, hsums⟩ :=
    conductance_weights_are_exact_sums (Conductance.new assignedCycle "c") hcolumn
  have hdegrees : ∀ node < 4, ∃ degree, assignedCycle.degree node = .ok degree
    | 0, _ | 1, _ | 2, _ | 3, _ => ⟨_, rfl⟩
  obtain ⟨after, hrun⟩ := hsucceeds.mpr ⟨rfl, hdegrees, gatherable_assignedCycle⟩
  have hassigned : assignedWeights id assignedCycle fourCommunities (List.range 4) =
      [1.0, 1.0, 1.0, 1.0, 1.0] := rfl
  have hexact : Scalar.AddExactly
      (assignedWeights id assignedCycle fourCommunities (List.range 4) : Multiset Float) := by
    rw [hassigned]
    exact WholeNumbers.addExactly_ones (by simp) (by simp)
  obtain ⟨hentries, htotal, _⟩ := hsums after hrun hexact
  have hones : ∃ node ∈ List.range 4, fourCommunities.community node = some 1 := by decide
  have htwos : ∃ node ∈ List.range 4, fourCommunities.community node = some 2 := by decide
  have hthrees : ¬ ∃ node ∈ List.range 4, fourCommunities.community node = some 3 := by decide
  exact ⟨hcolumn, after, hrun, (hentries 1).trans (if_pos hones), (hentries 2).trans (if_pos htwos),
    (hentries 3).trans (if_neg hthrees), htotal⟩

end PackedGraph
