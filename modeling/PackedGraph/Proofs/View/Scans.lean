import PackedGraph.Proofs.Store.Duality
import PackedGraph.Proofs.View.InducedSubgraph
import PackedGraph.View.Query

/-!
# Queries that scan a list

A query reads the list of a node only as far as it has to. It may stop at the first target that is
not smaller than the one it looks for, because every view hands out its targets in order.
-/

namespace PackedGraph

variable {σ α : Type}

namespace Reading

/-- A scan of sorted elements that stops at the first key that is not smaller than the target ends
with the first element that has the target as its key, if there is one. -/
theorem feed_scan (key : α → Nat) (target : Nat) (hit : α → σ) {elements : List α}
    (hsorted : elements.Pairwise fun a b ↦ key a ≤ key b)
    {consume : σ → α → Response σ} {state : σ}
    (hbefore : ∀ a, key a < target → consume state a = .more state)
    (hat : ∀ a, key a = target → consume state a = .enough (hit a))
    (hafter : ∀ a, target < key a → consume state a = .enough state) :
    feed ⟨elements, .ok ()⟩ consume state =
      ((elements.find? (key · == target)).elim state hit, .ok ()) := by
  induction elements with
  | nil => rfl
  | cons first elements ih =>
    obtain ⟨hfirst, hrest⟩ := List.pairwise_cons.mp hsorted
    have hfeed := feed_cons first ⟨elements, .ok ()⟩ consume state
    rcases lt_trichotomy (key first) target with hlt | heq | hgt
    · rw [hbefore first hlt] at hfeed
      rw [List.find?_cons_of_neg (by simpa using hlt.ne), ← ih hrest]
      exact hfeed
    · rw [hat first heq] at hfeed
      rw [List.find?_cons_of_pos (by simpa using heq)]
      exact hfeed
    · have hnone : (first :: elements).find? (key · == target) = none := by
        rw [List.find?_eq_none]
        intro other hother
        rcases List.mem_cons.mp hother with rfl | hother
        · simpa using hgt.ne'
        · simpa using (hgt.trans_le (hfirst other hother)).ne'
      rw [hafter first hgt] at hfeed
      rw [hnone]
      exact hfeed

/-- A scan that counts the elements ends with the one at a position, if there is one. -/
theorem feed_count (elements : List α) (passed position : Nat) :
    ∃ last, feed ⟨elements, .ok ()⟩
        (fun (state : Nat × Option α) element ↦
          if state.1 = passed + position then .enough (state.1, some element)
          else .more (state.1 + 1, none)) (passed, none) =
      ((last, elements[position]?), .ok ()) := by
  induction elements generalizing passed position with
  | nil => exact ⟨passed, rfl⟩
  | cons first elements ih =>
    cases position with
    | zero => exact ⟨passed, by simp [feed, feedFrom]⟩
    | succ position =>
      obtain ⟨last, hlast⟩ := ih (passed + 1) position
      have hne : passed ≠ passed + (position + 1) := by omega
      have hsum : passed + 1 + position = passed + (position + 1) := by omega
      rw [hsum] at hlast
      refine ⟨last, ?_⟩
      rw [feed, feedFrom, if_neg hne]
      exact hlast

/-- Without a limit, all elements are collected, the last one first. -/
theorem feed_collect (elements : List α) :
    feed ⟨elements, .ok ()⟩ (View.collect none) [] = (elements.reverse, .ok ()) := by
  have hmore : ∀ (seen : List α), ∀ element ∈ elements,
      View.collect none seen element = .more (element :: seen) := fun _ _ _ ↦ rfl
  rw [feed_of_more _ hmore, List.foldl_flip_cons_eq_append', List.append_nil]

end Reading

theorem Visit.result_of_ended {ρ : Type} {visit : Visit ρ σ} {state : σ}
    (h : visit.ended = (state, .ok ())) : visit.result = .ok state := by
  obtain ⟨rfl, houtcome⟩ := Prod.mk.inj h
  rw [result, houtcome]
  rfl

namespace View

variable {view : View} {source : Nat} {targets : List Nat} {fallback : ValueBits}
variable {pairs : List (Nat × ValueBits)}

/-- What an enumeration without a limit collects. -/
theorem HandsOut.result_relationships (h : view.HandsOut source targets) :
    (view.relationships source none).result = .ok targets := by
  have hended := (h view rfl (List Nat) (collect none) []).1.trans (Reading.feed_collect targets)
  obtain ⟨hstate, houtcome⟩ := Prod.mk.inj hended
  rw [Visit.result, relationships, houtcome, hstate, List.reverse_reverse]
  rfl

theorem HandsOutValues.result_relationships (h : view.HandsOutValues source fallback pairs) :
    (view.relationshipsWithValues source fallback none).result = .ok pairs := by
  have hended := (h view rfl (List (Nat × ValueBits))
    (fun seen target value ↦ collect none seen (target, value)) []).1.trans
    (Reading.feed_collect pairs)
  obtain ⟨hstate, houtcome⟩ := Prod.mk.inj hended
  rw [Visit.result, relationshipsWithValues, houtcome, hstate, List.reverse_reverse]
  rfl

theorem HandsOut.exists?_eq (h : view.HandsOut source targets)
    (hsorted : targets.Pairwise (· ≤ ·)) (target : Nat) :
    (view.exists? source target).2 = .ok (decide (target ∈ targets)) := by
  have hfound : (targets.find? (· == target)).elim false (fun _ ↦ true) =
      decide (target ∈ targets) := by
    cases hfind : targets.find? (· == target) with
    | none =>
      have hnone := List.find?_eq_none.mp hfind
      refine (decide_eq_false fun hmem ↦ ?_).symm
      exact hnone target hmem (beq_self_eq_true target)
    | some other =>
      have hother : (other == target) = true :=
        List.find?_some (p := (· == target)) hfind
      obtain rfl := eq_of_beq hother
      exact (decide_eq_true (List.mem_of_find?_eq_some hfind)).symm
  apply Visit.result_of_ended
  rw [(h view rfl Bool _ false).1, ← hfound]
  refine Reading.feed_scan (fun other ↦ other) target (fun _ ↦ true) hsorted ?_ ?_ ?_
  · intro other hlt
    have hne : (other == target) = false := beq_eq_false_iff_ne.mpr (Nat.ne_of_lt hlt)
    simp only [hne, if_pos hlt]
  · rintro other rfl
    simp only [beq_self_eq_true, if_neg (Nat.lt_irrefl other)]
  · intro other hgt
    have hne : (other == target) = false := beq_eq_false_iff_ne.mpr (Nat.ne_of_gt hgt)
    simp only [hne, if_neg (Nat.lt_asymm hgt)]

theorem HandsOut.target?_eq (h : view.HandsOut source targets) (position : Nat) :
    (view.target? source position).2 = .ok targets[position]? := by
  obtain ⟨last, hlast⟩ := Reading.feed_count targets 0 position
  rw [Nat.zero_add] at hlast
  have hresult := Visit.result_of_ended ((h view rfl (Nat × Option Nat) _ (0, none)).1.trans hlast)
  rw [target?, hresult]
  rfl

theorem HandsOutValues.relationshipValue_eq (h : view.HandsOutValues source fallback pairs)
    (hsorted : (pairs.map Prod.fst).Pairwise (· ≤ ·)) (hvalues : view.hasValues = true)
    (target : Nat) :
    (view.relationshipValue source target fallback).2 =
      .ok ((pairs.find? (·.1 == target)).elim fallback Prod.snd) := by
  have hpairs : pairs.Pairwise fun a b ↦ a.1 ≤ b.1 := List.pairwise_map.mp hsorted
  have hresult : Visit.result _ = _ := Visit.result_of_ended
    ((h view rfl ValueBits (fun found other value ↦
      let found := if other = target then value else found
      if other < target then .more found else .enough found) fallback).1.trans
      (Reading.feed_scan Prod.fst target Prod.snd hpairs ?_ ?_ ?_))
  · rw [relationshipValue, if_pos hvalues]
    exact congrArg (Except.mapError ViewError.read) hresult
  · intro other hlt
    simp only [if_neg (Nat.ne_of_lt hlt), if_pos hlt]
  · rintro other rfl
    simp only [if_pos, if_neg (Nat.lt_irrefl other.1)]
  · intro other hgt
    simp only [if_neg (Nat.ne_of_gt hgt), if_neg (Nat.lt_asymm hgt)]

end View

/-- On every view of a built graph, wherever its cursors have been left, the queries that scan the
list of a node answer from the full list, as an enumeration without a limit collects it: whether a
target stands in it, which target stands at a position, and which value comes with the first
relationship to a target. -/
theorem scans_agree_with_full_list {view : View} (h : view.OfBuiltGraph) {source : Nat}
    (hsource : source < view.nodeCount) :
    ∃ targets, (view.relationships source none).result = .ok targets ∧
      view.degree source = .ok targets.length ∧
      (∀ target, (view.exists? source target).2 = .ok (decide (target ∈ targets))) ∧
      (∀ position, (view.target? source position).2 = .ok targets[position]? ∧
        ((view.target? source position).2 = .ok none ↔ targets.length ≤ position)) ∧
      ∀ fallback, ∃ pairs,
        (view.relationshipsWithValues source fallback none).result = .ok pairs ∧
        pairs.map Prod.fst = targets ∧
        (view.hasValues = true → ∀ target, (view.relationshipValue source target fallback).2 =
          .ok ((pairs.find? (·.1 == target)).elim fallback Prod.snd)) := by
  have hcontract := h.contract
  have hlist := hcontract.handsOut source hsource
  have hsorted := hcontract.sorted source hsource
  refine ⟨view.targets source, hlist.result_relationships, hcontract.degree_eq source hsource,
    hlist.exists?_eq hsorted, fun position ↦ ⟨hlist.target?_eq position, ?_⟩, fun fallback ↦ ?_⟩
  · rw [hlist.target?_eq, Except.ok.injEq, List.getElem?_eq_none_iff]
  · have hpairs := hcontract.handsOutValues source hsource fallback
    have hfst := hcontract.map_fst_valuedTargets source hsource fallback
    exact ⟨_, hpairs.result_relationships, hfst,
      hpairs.relationshipValue_eq (hfst.symm ▸ hsorted)⟩

/-- What a builder that merges nothing has collected: parallel relationships, a loop, and one in the
opposite direction. -/
def keptCrossing : GraphBuilder := { crossing with aggregation := .keepAll }

theorem performAll_keptCrossing :
    GraphBuilder.new.performAll (crossingCalls ++ [.setAggregation .keepAll]) = keptCrossing := by
  rw [GraphBuilder.performAll, List.foldl_append]
  exact congrArg (fun builder : GraphBuilder ↦ { builder with aggregation := .keepAll })
    performAll_crossingCalls

theorem runs_keptCrossing :
    keptCrossing.runs 0 = [⟨0, [⟨0, 0, #[Float.toBits 4]⟩]⟩, ⟨1, [⟨0, 1, #[Float.toBits 2]⟩]⟩,
      ⟨1, [⟨0, 1, #[Float.toBits 0.5]⟩]⟩] ∧
      keptCrossing.runs 1 = [⟨0, [⟨1, 0, #[Float.toBits 1]⟩]⟩] := by
  simp [keptCrossing, crossing, GraphBuilder.runs, referenceRuns, GraphBuilder.new, nodeEntries,
    Orientation.entries, List.mergeSort, Aggregation.runs]

theorem exists_view_of_keptCrossing : ∃ packed : PackedView,
    (View.packed packed).OfBuiltGraph ∧ packed.Shows keptCrossing (some 0) := by
  have hbuilder := performAll_keptCrossing
  have hbuildable : (GraphBuilder.new.performAll
      (crossingCalls ++ [.setAggregation .keepAll])).Buildable :=
    hbuilder ▸ ⟨by decide, by decide, by decide, by decide⟩
  have hkey : ∀ k ∈ some "cost", k ∈ (GraphBuilder.new.performAll
      (crossingCalls ++ [.setAggregation .keepAll])).keys := by
    rintro k ⟨⟩
    rw [hbuilder]
    exact List.mem_singleton_self "cost"
  obtain ⟨graph, hcompress⟩ :=
    GraphBuilder.exists_compress_of_length_lt hbuildable (by decide)
  obtain ⟨packed, hbuilt, hshows⟩ := View.OfBuiltGraph.exists_of_compress hcompress hkey
  rw [hbuilder] at hshows
  exact ⟨packed, hbuilt, hshows⟩

theorem first_of_parallel_relationships_is_found :
    ∃ view : View, view.OfBuiltGraph ∧ 0 < view.nodeCount ∧ view.hasValues = true ∧
      (view.exists? 0 1).2 = .ok true ∧ (view.target? 0 3).2 = .ok none ∧
      ∀ fallback, (view.relationshipValue 0 1 fallback).2 = .ok (Float.toBits 2) := by
  obtain ⟨packed, hbuilt, hshows⟩ := exists_view_of_keptCrossing
  have hnode : 0 < (View.packed packed).nodeCount := by
    rw [hshows.nodeCount_eq]
    decide
  have hvalues : (View.packed packed).hasValues = true := hshows.hasValues_eq
  obtain ⟨targets, htargets, _, hexists, htarget, hvalue⟩ := scans_agree_with_full_list hbuilt hnode
  have hreading (fallback : ValueBits) : (View.packed packed).HandsOutValues 0 fallback
      [(0, Float.toBits 4), (1, Float.toBits 2), (1, Float.toBits 0.5)] := by
    rw [View.handsOutValues_iff, View.valueReading, hshows.valueReading_runs (by decide),
      runs_keptCrossing.1]
    rfl
  have hpairs (fallback : ValueBits) : ∀ pairs,
      ((View.packed packed).relationshipsWithValues 0 fallback none).result = .ok pairs →
        pairs = [(0, Float.toBits 4), (1, Float.toBits 2), (1, Float.toBits 0.5)] := fun pairs h ↦
    Except.ok.inj (h.symm.trans (hreading fallback).result_relationships)
  have hlist : targets = [0, 1, 1] := by
    obtain ⟨pairs, hcollected, hfst, _⟩ := hvalue 0
    rw [← hfst, hpairs 0 pairs hcollected]
    rfl
  refine ⟨_, hbuilt, hnode, hvalues, ?_, ?_, fun fallback ↦ ?_⟩
  · rw [hexists, hlist]
    rfl
  · rw [(htarget 3).1, hlist]
    rfl
  · obtain ⟨pairs, hcollected, _, hfound⟩ := hvalue fallback
    rw [hfound hvalues, hpairs fallback pairs hcollected]
    rfl

end PackedGraph
