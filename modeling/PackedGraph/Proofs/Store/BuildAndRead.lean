import PackedGraph.Proofs.Store.Opening

/-!
# Reading back what was built

Whatever calls a builder has received, the store that is built from it hands out the reference list
of every node, with the values of every key.
-/

namespace PackedGraph

/-- A store hands out lists of targets with the values of a key. It does so wherever the cursors of
the view on the key have been left, to every consumer that never stops. -/
def Store.HandsOut (store : Store) (memory : Memory) (key : String) (nodeCount : Nat)
    (list : Nat → List (Nat × ValueBits)) : Prop :=
  ∃ view later, (store.view (some key)).run.run memory = (.ok view, later) ∧
    store.SameBlocks memory later ∧ view.nodeCount = nodeCount ∧
    ∀ used : View, used.fresh = view → ∀ node < nodeCount,
      ∀ (σ : Type) (fallback : ValueBits) (f : σ → Nat → ValueBits → σ) (state : σ),
        let visit := used.visitWithValues node fallback
          (fun state target value ↦ .more (f state target value)) state
        visit.outcome = .ok () ∧ visit.reader.fresh = view ∧
          visit.state = (list node).foldl (fun state pair ↦ f state pair.1 pair.2) state

theorem View.visitWithValues_of_reading {view : View} {node : Nat} {fallback : ValueBits}
    {pairs : List (Nat × ValueBits)} (h : view.valueReading node fallback = ⟨pairs, .ok ()⟩)
    {σ : Type} (f : σ → Nat → ValueBits → σ) (state : σ) :
    (view.visitWithValues node fallback (fun state target value ↦ .more (f state target value))
      state).ended = (pairs.foldl (fun state pair ↦ f state pair.1 pair.2) state, .ok ()) := by
  rw [View.ended_visitWithValues, h]
  exact Reading.feed_of_more _ (fun _ _ _ ↦ rfl) state

theorem Store.Keeps.handsOut {store : Store} {memory : Memory} {builder : GraphBuilder}
    (h : store.Keeps memory builder) (hnodup : builder.keys.Nodup) {position : Nat} {key : String}
    (hkey : builder.keys[position]? = some key) :
    store.HandsOut memory key builder.nodeCount fun node ↦
      referenceList builder.orientation builder.aggregation builder.arcs.toList node position := by
  have hmem : key ∈ builder.keys := List.mem_of_getElem? hkey
  obtain ⟨hlt, hget⟩ := List.getElem?_eq_some_iff.mp hkey
  have hposition : builder.keys.idxOf key = position := by
    rw [← hget]
    exact hnodup.idxOf_getElem position hlt
  have hkeys : ∀ k ∈ some key, k ∈ builder.keys := by simpa using hmem
  obtain ⟨view, later, hrun, hshows, hfresh, hsame⟩ := h.view_eq hkeys
  rw [Option.map_some, hposition] at hshows
  refine ⟨_, later, hrun, hsame, ?_, ?_⟩
  · exact hshows.nodeCount_eq
  · intro used hused node hnode σ fallback f state
    have hreading : used.valueReading node fallback =
        ⟨referenceList builder.orientation builder.aggregation builder.arcs.toList node position,
          .ok ()⟩ := by
      rw [← View.valueReading_fresh, hused]
      exact hshows.valueReading_eq hnode fallback
    have hended := Prod.ext_iff.mp (View.visitWithValues_of_reading hreading f state)
    refine ⟨hended.2, ?_, hended.1⟩
    rw [View.reader_visitWithValues_fresh, hused]

/-- A graph with the right settings is built unless a list is too long to be counted, and then its
store hands out the reference list of every node for every key, as long as no block is released.
Every value comes with all of its bits, also one that is not a number. -/
theorem built_graph_hands_out_reference_lists (calls : List BuilderCall)
    (hbuildable : (GraphBuilder.new.performAll calls).Buildable) (memory : Memory) :
    let builder := GraphBuilder.new.performAll calls
    let list := referenceList builder.orientation builder.aggregation
      (GraphBuilder.new.acceptedArcs calls)
    (∃ node < builder.nodeCount, 2 ^ 32 ≤ (list node 0).length ∧
        (∀ earlier < node, (list earlier 0).length < 2 ^ 32) ∧
        builder.compress = .error (.degreeTooLarge node (list node 0).length)) ∨
      (∀ node < builder.nodeCount, (list node 0).length < 2 ^ 32) ∧
        ∃ graph store after, builder.compress = .ok graph ∧
          (graph.toStore builder.account).run memory = (store, after) ∧
          ∀ (position : Nat) (key : String), builder.keys[position]? = some key →
            ∀ now, store.SameBlocks after now →
              store.HandsOut now key builder.nodeCount (list · position) := by
  intro builder list
  have hvalid : builder.Valid := GraphBuilder.valid_new.performAll calls
  have harcs : builder.arcs.toList = GraphBuilder.new.acceptedArcs calls :=
    GraphBuilder.arcs_performAll GraphBuilder.valid_new calls
  have hlength (node : Nat) : (list node 0).length = (builder.targets node).length := by
    rw [← builder.length_referenceList node 0, harcs]
  by_cases hshort : ∀ node < builder.nodeCount, (list node 0).length < 2 ^ 32
  · right
    have htargets : ∀ node < builder.nodeCount, (builder.targets node).length < 2 ^ 32 := by
      intro node hnode
      rw [← hlength]
      exact hshort node hnode
    obtain ⟨graph, hcompress, hgraph⟩ := GraphBuilder.compress_eq hvalid hbuildable htargets
    obtain ⟨store, after, hstore, hkeeps⟩ := hgraph.toStore builder.account memory
    refine ⟨hshort, graph, store, after, hcompress, hstore, fun position key hkey now hnow ↦ ?_⟩
    have hhandsOut := (hkeeps.of_sameBlocks hnow).handsOut hbuildable.nodup_keys hkey
    rw [harcs] at hhandsOut
    exact hhandsOut
  · left
    obtain ⟨node, hnode, hlong, hearlier⟩ := GraphBuilder.exists_first_of_not_forall hshort
    refine ⟨node, hnode, hlong, hearlier, ?_⟩
    simp only [hlength] at hlong hearlier ⊢
    exact GraphBuilder.compress_eq_error hvalid hbuildable hnode hlong hearlier

/-- Calls for an undirected graph in pages of two elements: a triangle with parallel arcs and a
loop. -/
def parallelCalls : List BuilderCall :=
  [.setPageShift 1, .setOrientation .undirected, .setAggregation .sum,
    .declareKeys ["length", "cost"]] ++
  [.addArcByOriginals 5 7 #[Float.toBits 1.5, Float.toBits 2],
    .addArcByOriginals 7 5 #[Float.toBits (-0.0), Float.toBits 1],
    .addArc 0 0 #[Float.toBits 4, Float.toBits 0.5],
    .addArcByOriginals 9 7 #[Float.toBits 0, Float.toBits 1],
    .addArcByOriginals 5 9 #[Float.toBits 3, Float.toBits (-2)]]

theorem settings_parallelCalls : (GraphBuilder.new.performAll parallelCalls).settings =
    (.undirected, .sum, ["length", "cost"], .notANumber, 1, none) := by
  rw [parallelCalls, GraphBuilder.performAll, List.foldl_append]
  exact GraphBuilder.settings_performAll (GraphBuilder.valid_new.performAll _) (by decide)

theorem buildable_parallelCalls : (GraphBuilder.new.performAll parallelCalls).Buildable := by
  have hsettings := settings_parallelCalls
  simp only [GraphBuilder.settings, Prod.mk.injEq] at hsettings
  obtain ⟨_, _, hkeys, _, hshift, _⟩ := hsettings
  refine ⟨hshift.ge, hshift.trans_le (by decide), ?_, ?_⟩
  · rw [hkeys]
    decide
  · rw [hkeys]
    decide

theorem built_graph_hands_out_parallel_arcs :
    (GraphBuilder.new.performAll parallelCalls).Buildable ∧
      ∃ graph store after, (GraphBuilder.new.performAll parallelCalls).compress = .ok graph ∧
        (graph.toStore none).run .empty = (store, after) ∧
        store.HandsOut after "cost" (GraphBuilder.new.performAll parallelCalls).nodeCount fun node ↦
          referenceList .undirected .sum (GraphBuilder.new.acceptedArcs parallelCalls) node 1 := by
  refine ⟨buildable_parallelCalls, ?_⟩
  have hsettings := settings_parallelCalls
  simp only [GraphBuilder.settings, Prod.mk.injEq] at hsettings
  obtain ⟨horientation, haggregation, hkeys, _, _, haccount⟩ := hsettings
  have hbuilt := built_graph_hands_out_reference_lists parallelCalls buildable_parallelCalls .empty
  rcases hbuilt with ⟨node, _, hlong, _⟩ | ⟨_, graph, store, after, hcompress, hstore, hreads⟩
  · have hshort : ((GraphBuilder.new.performAll parallelCalls).targets node).length < 2 ^ 32 :=
      (GraphBuilder.length_targets_performAll_le parallelCalls node).trans_lt (by decide)
    rw [← GraphBuilder.length_referenceList _ node 0,
      GraphBuilder.arcs_performAll GraphBuilder.valid_new parallelCalls] at hshort
    exact absurd hlong (not_le.mpr hshort)
  · rw [haccount] at hstore
    refine ⟨graph, store, after, hcompress, hstore, ?_⟩
    have hcost := hreads 1 "cost" (by rw [hkeys]; rfl) after rfl
    rw [horientation, haggregation] at hcost
    exact hcost

end PackedGraph
