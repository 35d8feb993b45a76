import PackedGraph.Proofs.Build.Duality
import PackedGraph.Proofs.Store.BuildAndRead
import PackedGraph.Proofs.Store.Views

/-!
# Graphs of opposite orientations

The same calls with the opposite orientation give a graph in which every relationship stands in the
list of its other end, with the same values in the same order. In an undirected graph it stands in
the lists of both ends.
-/

namespace PackedGraph

/-! ## The runs that a view shows -/

/-- The value with which some parallel arcs are shown, by a view with the values of the key at a
position or by a view without values. -/
def Aggregation.shownValue (aggregation : Aggregation) (position : Option Nat)
    (fallback : ValueBits) (arcs : List Arc) : ValueBits :=
  match position with
  | none => fallback
  | some key => aggregation.merge (arcs.map (·.valueAt key))

theorem Aggregation.shownValue_reversed (aggregation : Aggregation) (position : Option Nat)
    (fallback : ValueBits) (arcs : List Arc) :
    aggregation.shownValue position fallback (arcs.map Arc.reversed) =
      aggregation.shownValue position fallback arcs := by
  cases position with
  | none => rfl
  | some key =>
    rw [shownValue, shownValue, List.map_map]
    rfl

/-- A view shows each run of a node as one relationship. -/
theorem PackedView.Shows.valueReading_runs {view : PackedView} {builder : GraphBuilder}
    {position : Option Nat} (h : view.Shows builder position) {node : Nat}
    (hnode : node < builder.nodeCount) (fallback : ValueBits) :
    view.valueReading node fallback =
      ⟨(builder.runs node).map fun run ↦
        (run.target, builder.aggregation.shownValue position fallback run.arcs), .ok ()⟩ := by
  cases position with
  | none =>
    have hvalues : ¬ view.hasValues = true := by
      rw [h.hasValues_eq]
      exact Bool.false_ne_true
    rw [valueReading, if_neg hvalues, h.reading_eq hnode, Reading.map, GraphBuilder.targets,
      List.map_map]
    rfl
  | some key =>
    rw [h.valueReading_eq hnode, referenceList, ← builder.aggregation.map_runs]
    rfl

namespace View

/-- The values with which a target stands in the list of a node, in the order of an enumeration
that is not stopped. -/
def valuesBetween (view : View) (source target : Nat) (fallback : ValueBits) :
    Except ReadError (List ValueBits) :=
  (view.relationshipsWithValues source fallback none).result.map fun pairs ↦
    (pairs.filter (·.1 == target)).map Prod.snd

theorem valuesBetween_of_valueReading {view : View} {source : Nat} {fallback : ValueBits}
    {pairs : List (Nat × ValueBits)} (h : view.valueReading source fallback = ⟨pairs, .ok ()⟩)
    (target : Nat) : view.valuesBetween source target fallback =
      .ok ((pairs.filter (·.1 == target)).map Prod.snd) := by
  have hstate := (view.relationshipsWithValues_eq source fallback).1
  have houtcome := view.outcome_relationshipsWithValues source fallback
  rw [h] at houtcome
  rw [valuedTargets, h] at hstate
  rw [valuesBetween, Visit.result, houtcome, hstate]
  rfl

end View

/-! ## Views of the built graph -/

/-- A view with the values of a key, or without values, of the graph that a builder has collected:
it was opened on a store that was built from the builder, of which blocks may have been released
but not been changed, and its cursors may have moved since. -/
def GraphBuilder.Offers (builder : GraphBuilder) (key : Option String) (view : View) : Prop :=
  ∃ graph store memory after now opened later, builder.compress = .ok graph ∧
    (graph.toStore builder.account).run memory = (store, after) ∧ store.OnlyReleased after now ∧
    (store.view key).run.run now = (.ok opened, later) ∧ view.fresh = opened.fresh

theorem Store.Keeps.shows_key_of_run_view {store : Store} {before now later : Memory}
    {builder : GraphBuilder} (h : store.Keeps before builder)
    (honly : store.OnlyReleased before now) {key : Option String} {view : View}
    (hview : (store.view key).run.run now = (.ok view, later)) :
    ∃ packed, view = .packed packed ∧
      packed.Shows builder (key.map fun key ↦ builder.keys.idxOf key) := by
  cases hblocks : store.blocks now key with
  | error error =>
    rw [Store.run_view_of_error hblocks] at hview
    exact absurd (congrArg Prod.fst hview) nofun
  | ok found =>
    obtain ⟨topology, values, position⟩ := found
    obtain ⟨hshows, ledger, hrun⟩ := h.shows_of_blocks honly hblocks
    rw [hrun, Prod.mk.injEq, Except.ok.injEq] at hview
    refine ⟨_, hview.1.symm, ?_⟩
    obtain ⟨_, _, _, hkey⟩ := Store.blocks_eq_ok_iff.mp hblocks
    cases key with
    | none =>
      rw [hkey.1] at hshows ⊢
      exact hshows
    | some key =>
      obtain ⟨hposition, stored, rfl, _⟩ := hkey
      rw [h.keys_eq, List.findIdx?_eq_some_iff_findIdx_eq] at hposition
      obtain ⟨_, rfl⟩ := hposition
      exact hshows

namespace GraphBuilder

/-- The values between two nodes are those of the runs of the builder. -/
theorem Offers.valuesBetween_eq {builder : GraphBuilder} {key : Option String} {view : View}
    (h : builder.Offers key view) (hvalid : builder.Valid) {source : Nat}
    (hsource : source < builder.nodeCount) (target : Nat) (fallback : ValueBits) :
    view.valuesBetween source target fallback =
      .ok ((((builder.runs source).filter (·.target == target)).map Run.arcs).map
        (builder.aggregation.shownValue (key.map fun key ↦ builder.keys.idxOf key) fallback)) := by
  obtain ⟨graph, store, memory, after, now, opened, later, hcompress, hstore, honly, hopen,
    hfresh⟩ := h
  have hkeeps := (hvalid.stores_of_compress hcompress).keeps_of_run_toStore hstore
  obtain ⟨packed, rfl, hshows⟩ := hkeeps.shows_key_of_run_view honly hopen
  have hreading := hshows.valueReading_runs hsource fallback
  have hview : view.valueReading source fallback = packed.valueReading source fallback :=
    View.valueReading_congr hfresh source fallback
  rw [View.valuesBetween_of_valueReading (hview.trans hreading), List.filter_map, List.map_map,
    List.map_map]
  rfl

/-- A graph with the right settings can be viewed, unless a list is too long to be counted. -/
theorem exists_offers {builder : GraphBuilder} (hvalid : builder.Valid)
    (hbuildable : builder.Buildable) {key : Option String} (hkey : ∀ k ∈ key, k ∈ builder.keys) :
    (∃ view, builder.Offers key view) ∨
      ∃ node degree, 2 ^ 32 ≤ degree ∧ builder.compress = .error (.degreeTooLarge node degree) := by
  by_cases hshort : ∀ node < builder.nodeCount, (builder.targets node).length < 2 ^ 32
  · obtain ⟨graph, hcompress, hgraph⟩ := compress_eq hvalid hbuildable hshort
    obtain ⟨store, after, hstore, hkeeps⟩ := hgraph.toStore builder.account .empty
    obtain ⟨view, later, hview, _⟩ := hkeeps.view_eq hkey
    exact .inl ⟨_, graph, store, _, after, after, _, later, hcompress, hstore, .refl _ _, hview,
      rfl⟩
  · obtain ⟨node, hnode, hlong, hearlier⟩ := exists_first_of_not_forall hshort
    exact .inr ⟨node, _, hlong, compress_eq_error hvalid hbuildable hnode hlong hearlier⟩

/-- No list is too long if there are few arcs. -/
theorem exists_offers_of_size_lt {builder : GraphBuilder} (hvalid : builder.Valid)
    (hbuildable : builder.Buildable) (hfew : 2 * builder.arcs.size < 2 ^ 32) {key : Option String}
    (hkey : ∀ k ∈ key, k ∈ builder.keys) : ∃ view, builder.Offers key view := by
  have hshort : ∀ node < builder.nodeCount, (builder.targets node).length < 2 ^ 32 :=
    fun node _ ↦ (builder.length_targets_le node).trans_lt hfew
  obtain ⟨graph, hcompress, _⟩ := compress_eq hvalid hbuildable hshort
  rcases exists_offers hvalid hbuildable hkey with hoffers | ⟨_, _, _, herror⟩
  · exact hoffers
  · exact nomatch hcompress.symm.trans herror

/-- A builder with another orientation. -/
def oriented (builder : GraphBuilder) (orientation : Orientation) : GraphBuilder :=
  { builder with orientation }

theorem performAll_setOrientation (builder : GraphBuilder) (calls : List BuilderCall)
    (orientation : Orientation) :
    builder.performAll (calls ++ [.setOrientation orientation]) =
      (builder.performAll calls).oriented orientation := by
  rw [performAll, List.foldl_append]
  rfl

section Oriented

variable {builder : GraphBuilder} {orientation : Orientation}

theorem Valid.oriented (h : builder.Valid) (orientation : Orientation) :
    (builder.oriented orientation).Valid :=
  ⟨h.ids, h.records, h.ends_lt, h.size_values⟩

theorem Buildable.oriented (h : builder.Buildable) (orientation : Orientation) :
    (builder.oriented orientation).Buildable :=
  ⟨h.one_le_pageShift, h.pageShift_le, h.nodup_keys, h.empty_notMem_keys⟩

/-- The values from `t` to `s` in a graph of the opposite orientation are those from `s` to `t`. -/
theorem Offers.valuesBetween_opposite (hvalid : builder.Valid) {key : Option String}
    {view other : View} (hview : (builder.oriented orientation).Offers key view)
    (hother : (builder.oriented orientation.opposite).Offers key other) {source target : Nat}
    (hsource : source < builder.nodeCount) (htarget : target < builder.nodeCount)
    (hne : orientation = .undirected → source ≠ target) (fallback : ValueBits) :
    ∃ values, view.valuesBetween source target fallback = .ok values ∧
      other.valuesBetween target source fallback = .ok values := by
  refine ⟨_, hview.valuesBetween_eq (hvalid.oriented _) hsource target fallback, ?_⟩
  have hruns : (((builder.oriented orientation.opposite).runs target).filter
      (·.target == source)).map Run.arcs =
      ((((builder.oriented orientation).runs source).filter (·.target == target)).map
        Run.arcs).map (List.map Arc.reversed) :=
    filter_opposite_referenceRuns hne builder.aggregation builder.arcs.toList
  rw [hother.valuesBetween_eq (hvalid.oriented _) htarget, hruns, List.map_map]
  congr 1
  exact List.map_congr_left fun arcs _ ↦ Aggregation.shownValue_reversed _ _ _ arcs

end Oriented

end GraphBuilder

/-- The same calls can be built with every orientation, unless a list is too long to be counted. A
target stands in the list of a node of the natural graph with the same values, bit for bit and in
the same order, as the node in the list of the target in the reverse graph. In the undirected graph
two different nodes stand in the lists of each other with the same values in the same order. -/
theorem orientations_are_dual (calls : List BuilderCall)
    (hbuildable : (GraphBuilder.new.performAll calls).Buildable) (key : Option String)
    (hkey : ∀ k ∈ key, k ∈ (GraphBuilder.new.performAll calls).keys) :
    let builder (orientation : Orientation) :=
      GraphBuilder.new.performAll (calls ++ [.setOrientation orientation])
    let count := (GraphBuilder.new.performAll calls).nodeCount
    (∀ orientation, (∃ view, (builder orientation).Offers key view) ∨
      ∃ node degree, 2 ^ 32 ≤ degree ∧
        (builder orientation).compress = .error (.degreeTooLarge node degree)) ∧
    (∀ natural reverse : View, (builder .natural).Offers key natural →
      (builder .reverse).Offers key reverse → ∀ s < count, ∀ t < count, ∀ fallback, ∃ values,
        natural.valuesBetween s t fallback = .ok values ∧
          reverse.valuesBetween t s fallback = .ok values) ∧
    ∀ undirected : View, (builder .undirected).Offers key undirected →
      ∀ s < count, ∀ t < count, s ≠ t → ∀ fallback, ∃ values,
        undirected.valuesBetween s t fallback = .ok values ∧
          undirected.valuesBetween t s fallback = .ok values := by
  intro builder count
  have hvalid : (GraphBuilder.new.performAll calls).Valid :=
    GraphBuilder.valid_new.performAll calls
  simp only [builder, GraphBuilder.performAll_setOrientation]
  refine ⟨fun orientation ↦ ?_, fun natural reverse hnatural hreverse s hs t ht fallback ↦ ?_,
    fun undirected hundirected s hs t ht hne fallback ↦ ?_⟩
  · exact GraphBuilder.exists_offers (hvalid.oriented orientation) (hbuildable.oriented orientation)
      hkey
  · exact GraphBuilder.Offers.valuesBetween_opposite hvalid hnatural hreverse hs ht nofun fallback
  · exact GraphBuilder.Offers.valuesBetween_opposite hvalid hundirected hundirected hs ht
      (fun _ ↦ hne) fallback

/-- Calls for two nodes with relationships in both directions, which are merged, and a loop. -/
def crossingCalls : List BuilderCall :=
  [.declareKeys ["cost"], .setAggregation .sum, .addArcByOriginals 5 7 #[Float.toBits 2],
    .addArc 1 0 #[Float.toBits 1], .addArc 0 1 #[Float.toBits 0.5], .addArc 0 0 #[Float.toBits 4]]

/-- What the builder has collected after the calls. -/
def crossing : GraphBuilder :=
  { GraphBuilder.new with
    keys := ["cost"], aggregation := .sum
    ids := ⟨(Std.HashMap.insert ∅ 5 0).insert 7 1, #[5, 7], ∅⟩
    arcs := #[⟨0, 1, #[Float.toBits 2]⟩, ⟨1, 0, #[Float.toBits 1]⟩, ⟨0, 1, #[Float.toBits 0.5]⟩,
      ⟨0, 0, #[Float.toBits 4]⟩] }

theorem performAll_crossingCalls : GraphBuilder.new.performAll crossingCalls = crossing := by
  let settled : GraphBuilder := { GraphBuilder.new with keys := ["cost"], aggregation := .sum }
  have hfirst : (settled.perform (.addArcByOriginals 5 7 #[Float.toBits 2])).2 =
      { crossing with arcs := #[⟨0, 1, #[Float.toBits 2]⟩] } := by
    rw [GraphBuilder.perform, BuilderCall.toCall, run_bind,
      GraphBuilder.run_addArcByOriginals settled IdMapBuilder.valid_empty]
    simp [IdMapBuilder.register, IdMapBuilder.node?, IdMapBuilder.nodeCount, IdMapBuilder.empty,
      GraphBuilder.new, settled, crossing]
    rfl
  have hsettled : ((GraphBuilder.new.perform (.declareKeys ["cost"])).2.perform
      (.setAggregation .sum)).2 = settled := rfl
  rw [crossingCalls, GraphBuilder.performAll, List.foldl_cons, List.foldl_cons, List.foldl_cons,
    hsettled, hfirst]
  rfl

theorem buildable_crossing : crossing.Buildable := ⟨by decide, by decide, by decide, by decide⟩

theorem exists_offers_crossing (orientation : Orientation) :
    ∃ view, (crossing.oriented orientation).Offers (some "cost") view := by
  have hfew : 2 * crossing.arcs.size < 2 ^ 32 := by decide
  refine GraphBuilder.exists_offers_of_size_lt ?_ (buildable_crossing.oriented orientation) hfew ?_
  · exact (performAll_crossingCalls ▸ GraphBuilder.valid_new.performAll crossingCalls).oriented _
  · rintro k ⟨⟩
    exact List.mem_singleton_self "cost"

/-- The same calls where nothing is merged, with a further relationship. Its value is not a number:
it is negative and has a payload. -/
def unmergedCalls : List BuilderCall :=
  crossingCalls ++ [.setAggregation .keepAll, .addArc 1 0 #[0xfff8000000000001]]

def unmerged : GraphBuilder :=
  { crossing with
    aggregation := .keepAll, arcs := crossing.arcs.push ⟨1, 0, #[0xfff8000000000001]⟩ }

theorem performAll_unmergedCalls : GraphBuilder.new.performAll unmergedCalls = unmerged := by
  have hcrossing := performAll_crossingCalls
  rw [GraphBuilder.performAll] at hcrossing
  rw [unmergedCalls, GraphBuilder.performAll, List.foldl_append, hcrossing]
  rfl

theorem buildable_unmerged : unmerged.Buildable := ⟨by decide, by decide, by decide, by decide⟩

theorem exists_offers_unmerged (orientation : Orientation) :
    ∃ view, (unmerged.oriented orientation).Offers (some "cost") view := by
  have hfew : 2 * unmerged.arcs.size < 2 ^ 32 := by decide
  refine GraphBuilder.exists_offers_of_size_lt ?_ (buildable_unmerged.oriented orientation) hfew ?_
  · exact (performAll_unmergedCalls ▸ GraphBuilder.valid_new.performAll unmergedCalls).oriented _
  · rintro k ⟨⟩
    exact List.mem_singleton_self "cost"

theorem runs_unmerged : (unmerged.oriented .natural).runs 1 =
    [⟨0, [⟨1, 0, #[Float.toBits 1]⟩]⟩, ⟨0, [⟨1, 0, #[0xfff8000000000001]⟩]⟩] := by
  simp [GraphBuilder.oriented, unmerged, crossing, GraphBuilder.runs, referenceRuns,
    GraphBuilder.new, nodeEntries, Orientation.entries, List.mergeSort, Aggregation.runs]

/-- The value that is not a number is found in either direction with its sign and payload. -/
theorem unmerged_orientations_are_dual :
    (GraphBuilder.new.performAll unmergedCalls).Buildable ∧
      (∀ k ∈ some "cost", k ∈ (GraphBuilder.new.performAll unmergedCalls).keys) ∧
      ∃ natural reverse undirected : View,
        (unmerged.oriented .natural).Offers (some "cost") natural ∧
        (unmerged.oriented .reverse).Offers (some "cost") reverse ∧
        (unmerged.oriented .undirected).Offers (some "cost") undirected ∧
        natural.valuesBetween 1 0 0 = .ok [Float.toBits 1, 0xfff8000000000001] ∧
        reverse.valuesBetween 0 1 0 = .ok [Float.toBits 1, 0xfff8000000000001] ∧
        ∃ values, undirected.valuesBetween 0 1 0 = .ok values ∧
          undirected.valuesBetween 1 0 0 = .ok values := by
  have hvalid : unmerged.Valid :=
    performAll_unmergedCalls ▸ GraphBuilder.valid_new.performAll unmergedCalls
  have hbuildable : (GraphBuilder.new.performAll unmergedCalls).Buildable :=
    performAll_unmergedCalls ▸ buildable_unmerged
  have hkey : ∀ k ∈ some "cost", k ∈ (GraphBuilder.new.performAll unmergedCalls).keys := by
    rw [performAll_unmergedCalls]
    decide
  have hzero : 0 < unmerged.nodeCount := by decide
  have hone : 1 < unmerged.nodeCount := by decide
  obtain ⟨_, hopposite, hsymmetric⟩ :=
    orientations_are_dual unmergedCalls hbuildable (some "cost") hkey
  simp only [GraphBuilder.performAll_setOrientation, performAll_unmergedCalls]
    at hopposite hsymmetric
  obtain ⟨natural, hnatural⟩ := exists_offers_unmerged .natural
  obtain ⟨reverse, hreverse⟩ := exists_offers_unmerged .reverse
  obtain ⟨undirected, hundirected⟩ := exists_offers_unmerged .undirected
  have hshown : natural.valuesBetween 1 0 0 = .ok [Float.toBits 1, 0xfff8000000000001] := by
    rw [hnatural.valuesBetween_eq (hvalid.oriented .natural) hone, runs_unmerged]
    rfl
  obtain ⟨values, hvalues, hsame⟩ :=
    hopposite natural reverse hnatural hreverse 1 hone 0 hzero 0
  obtain rfl := Except.ok.inj (hshown.symm.trans hvalues)
  exact ⟨hbuildable, hkey, natural, reverse, undirected, hnatural, hreverse, hundirected, hshown,
    hsame, hsymmetric undirected hundirected 0 hzero 1 hone Nat.zero_ne_one 0⟩

end PackedGraph
