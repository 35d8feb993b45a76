import PackedGraph.Proofs.Build.Merging
import PackedGraph.Proofs.Store.Duality

/-!
# Merged relationships of an undirected graph

Two different nodes stand in the list of each other once, with the merged values of all
relationships that join them in either direction. A loop is laid out in both directions, too, and
is therefore merged with itself.
-/

namespace PackedGraph

namespace GraphBuilder

variable {builder : GraphBuilder} {key : String} {view : View} {s t : Nat}

/-- The values of the relationships that join two nodes, in the order in which they were added. -/
def joiningValues (builder : GraphBuilder) (key : String) (s t : Nat) : List ValueBits :=
  PackedGraph.joiningValues builder.arcs.toList s t (builder.keys.idxOf key)

/-- If parallel relationships are merged, a target stands in a list at most once. -/
theorem Offers.valuesBetween_of_ne_keepAll (h : builder.Offers (some key) view)
    (hvalid : builder.Valid) (hmerges : builder.aggregation ≠ .keepAll)
    (hs : s < builder.nodeCount) (fallback : ValueBits) {values : List ValueBits}
    (hvalues : (entriesBetween builder.orientation builder.arcs.toList s t).map
      (·.valueAt (builder.keys.idxOf key)) = values) :
    view.valuesBetween s t fallback =
      .ok (if values = [] then [] else [builder.aggregation.merge values]) := by
  rw [h.valuesBetween_eq hvalid hs, runs, filter_target_referenceRuns,
    Aggregation.bundles_of_ne_keepAll hmerges]
  subst hvalues
  cases entriesBetween builder.orientation builder.arcs.toList s t <;> rfl

/-- Between two nodes of an undirected graph each value is merged once, or twice if it is that of
a loop. -/
theorem Offers.valuesBetween_undirected (h : (builder.oriented .undirected).Offers (some key) view)
    (hvalid : builder.Valid) (hmerges : builder.aggregation ≠ .keepAll)
    (hs : s < builder.nodeCount) (t : Nat) (fallback : ValueBits) :
    view.valuesBetween s t fallback = .ok (if builder.joiningValues key s t = [] then []
      else [if s = t then builder.aggregation.mergeLoops (builder.joiningValues key s t)
        else builder.aggregation.merge (builder.joiningValues key s t)]) := by
  have hundirected := hvalid.oriented .undirected
  by_cases heq : s = t
  · subst heq
    rw [h.valuesBetween_of_ne_keepAll hundirected hmerges hs fallback
      (map_valueAt_entriesBetween_self _ _ _), if_pos rfl, ← Aggregation.merge_twice]
    exact congrArg Except.ok (if_congr Aggregation.twice_eq_nil_iff rfl rfl)
  · rw [h.valuesBetween_of_ne_keepAll hundirected hmerges hs fallback
      (map_valueAt_entriesBetween heq _ _), if_neg heq]
    rfl

end GraphBuilder

/-- The same calls can be built as an undirected graph, unless a list is too long to be counted. If
parallel relationships are merged, two different nodes stand in the list of each other with the
merged value of all relationships that join them, in either direction, each of which is merged once.
Loops are counted and added twice. A relationship without parallel ones keeps its value, unless it
is counted or is a loop whose value is added twice. What is not a number is kept bit for bit where
the first value is, loses its sign and payload in a sum, and has no place in a minimum or maximum.
-/
theorem undirected_graph_merges_joining_relationships (calls : List BuilderCall)
    (hbuildable : (GraphBuilder.new.performAll calls).Buildable) (key : String)
    (hkey : key ∈ (GraphBuilder.new.performAll calls).keys)
    (hmerges : (GraphBuilder.new.performAll calls).aggregation ≠ .keepAll) :
    let settled := GraphBuilder.new.performAll calls
    let undirected := GraphBuilder.new.performAll (calls ++ [.setOrientation .undirected])
    let aggregation := settled.aggregation
    ((∃ view, undirected.Offers (some key) view) ∨
      ∃ node degree, 2 ^ 32 ≤ degree ∧
        undirected.compress = .error (.degreeTooLarge node degree)) ∧
    ∀ view : View, undirected.Offers (some key) view →
      ∀ s < settled.nodeCount, ∀ t < settled.nodeCount, ∀ fallback,
        let values := settled.joiningValues key s t
        let shown := view.valuesBetween s t fallback
        (values = [] → shown = .ok []) ∧
        (values ≠ [] → s ≠ t → shown = .ok [aggregation.merge values]) ∧
        (values ≠ [] → s = t → shown = .ok [aggregation.mergeLoops values]) ∧
        ∀ value, values = [value] → aggregation ≠ .count → (aggregation = .sum → s ≠ t) →
          (aggregation = .single ∨ (Float.ofBits value).isNaN = false → shown = .ok [value]) ∧
          (aggregation = .sum →
            ∃ kept, shown = .ok [kept] ∧ Float.ofBits kept = Float.ofBits value) := by
  intro settled undirected aggregation
  have hvalid : settled.Valid := GraphBuilder.valid_new.performAll calls
  simp only [undirected, GraphBuilder.performAll_setOrientation]
  refine ⟨GraphBuilder.exists_offers (hvalid.oriented _) (hbuildable.oriented _) ?_,
    fun view hview s hs t _ fallback ↦ ?_⟩
  · rintro k ⟨⟩
    exact hkey
  rw [hview.valuesBetween_undirected hvalid hmerges hs t fallback]
  refine ⟨fun hnil ↦ ?_, fun hjoined hne ↦ ?_, fun hjoined heq ↦ ?_,
    fun value hvalue hcount hsum ↦ ⟨fun hnumber ↦ ?_, fun hadded ↦ ?_⟩⟩
  · rw [if_pos hnil]
  · rw [if_neg hjoined, if_neg hne]
  · rw [if_neg hjoined, if_pos heq]
  · rw [hvalue, if_neg (List.cons_ne_nil _ _)]
    have hkept := hnumber.imp_right (Or.inr (a := aggregation = .keepAll))
    split_ifs with heq
    · have hadded : aggregation ≠ .sum := fun hadded ↦ hsum hadded heq
      exact congrArg (Except.ok [·]) (Aggregation.mergeLoops_singleton hadded hcount hkept)
    · exact congrArg (Except.ok [·]) (Aggregation.merge_singleton hcount hkept)
  · have hmerge : aggregation.merge [value] = Aggregation.total [value] := by
      rw [hadded]
      rfl
    rw [hvalue, if_neg (List.cons_ne_nil _ _), if_neg (hsum hadded)]
    exact ⟨_, congrArg (Except.ok [·]) hmerge, Aggregation.ofBits_total_singleton value⟩

theorem undirected_crossing_merges_joining_relationships :
    (GraphBuilder.new.performAll crossingCalls).Buildable ∧
      "cost" ∈ (GraphBuilder.new.performAll crossingCalls).keys ∧
      (GraphBuilder.new.performAll crossingCalls).aggregation ≠ .keepAll ∧
      ∃ view, (crossing.oriented .undirected).Offers (some "cost") view ∧
        view.valuesBetween 1 0 0 = .ok [Float.toBits 3.5] ∧
        view.valuesBetween 0 0 0 = .ok [Float.toBits 8] := by
  have hbuildable : (GraphBuilder.new.performAll crossingCalls).Buildable :=
    performAll_crossingCalls ▸ buildable_crossing
  have hkey : "cost" ∈ (GraphBuilder.new.performAll crossingCalls).keys := by
    rw [performAll_crossingCalls]
    decide
  have hmerges : (GraphBuilder.new.performAll crossingCalls).aggregation ≠ .keepAll := by
    rw [performAll_crossingCalls]
    decide
  have hshown := (undirected_graph_merges_joining_relationships crossingCalls hbuildable "cost" hkey
    hmerges).2
  simp only [GraphBuilder.performAll_setOrientation, performAll_crossingCalls] at hshown
  obtain ⟨view, hview⟩ := exists_offers_crossing .undirected
  have hzero : 0 < crossing.nodeCount := by decide
  have hone : 1 < crossing.nodeCount := by decide
  have hjoined : crossing.joiningValues "cost" 1 0 =
      [Float.toBits 2, Float.toBits 1, Float.toBits 0.5] := rfl
  have hloops : crossing.joiningValues "cost" 0 0 = [Float.toBits 4] := rfl
  obtain ⟨_, hcrossing, _, _⟩ := hshown view hview 1 hone 0 hzero 0
  obtain ⟨_, _, hloop, _⟩ := hshown view hview 0 hzero 0 hzero 0
  rw [hjoined] at hcrossing
  rw [hloops] at hloop
  exact ⟨hbuildable, hkey, hmerges, view, hview,
    hcrossing (List.cons_ne_nil _ _) Nat.one_ne_zero, hloop (List.cons_ne_nil _ _) rfl⟩

/-- The only loop of a node, of value 4, is shown with the value 8 if values are added. -/
theorem a_single_loop_is_added_twice :
    crossing.aggregation = .sum ∧ crossing.joiningValues "cost" 0 0 = [Float.toBits 4] ∧
      ∃ view, (crossing.oriented .undirected).Offers (some "cost") view ∧
        view.valuesBetween 0 0 0 = .ok [Float.toBits 8] ∧
        Float.toBits 8 ≠ Aggregation.total [Float.toBits 4] := by
  have hvalid : crossing.Valid :=
    performAll_crossingCalls ▸ GraphBuilder.valid_new.performAll crossingCalls
  obtain ⟨view, hview⟩ := exists_offers_crossing .undirected
  exact ⟨rfl, rfl, view, hview,
    hview.valuesBetween_undirected hvalid nofun Nat.two_pos 0 0, by decide⟩

end PackedGraph
