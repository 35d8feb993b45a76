import Mathlib
import PackedGraph.Proofs.View.InducedSubgraph
import PackedGraph.View.Query

/-!
# Enumerations after any history

A view and its copies keep cursors that stay where the last call has left them, be it in the middle
of a list. No call can tell: an enumeration hands out the list of its node from the start, and stops
right after the first element that its consumer answers with no.
-/

namespace PackedGraph

variable {σ α : Type}

/-! ## Consumers -/

/-- The response of a consumer that turns its state into a new one and answers whether it wants
more. -/
def respond (consume : σ → α → σ × Bool) (state : σ) (element : α) : Response σ :=
  match consume state element with
  | (state, true) => .more state
  | (state, false) => .enough state

/-- A consumer that keeps the elements on which it is called. -/
def logged (consume : σ → α → σ × Bool) (state : List α × σ) (element : α) :
    (List α × σ) × Bool :=
  let (after, wantsMore) := consume state.2 element
  ((state.1 ++ [element], after), wantsMore)

/-- A consumer is called on elements from the first one on, until it answers with no or there are
none left, and ends in some state. -/
structure StopsWhereAsked (consume : σ → α → σ × Bool) (state : σ) (elements called : List α)
    (final : σ) : Prop where
  isPrefix : called <+: elements
  final_eq : final = called.foldl (fun state element ↦ (consume state element).1) state
  wanted : ∀ earlier element later, called = earlier ++ element :: later → later ≠ [] →
    (consume (earlier.foldl (fun state element ↦ (consume state element).1) state) element).2 =
      true
  refused : called ≠ elements → ∃ earlier element, called = earlier ++ [element] ∧
    (consume (earlier.foldl (fun state element ↦ (consume state element).1) state) element).2 =
      false

section Consumer

variable {consume : σ → α → σ × Bool} {state after final : σ} {element : α}
variable {elements called : List α}

theorem stopsWhereAsked_nil : StopsWhereAsked consume state [] [] state where
  isPrefix := List.prefix_rfl
  final_eq := rfl
  wanted earlier element later h := by simp at h
  refused h := absurd rfl h

theorem stopsWhereAsked_of_refusal (h : consume state element = (after, false)) :
    StopsWhereAsked consume state (element :: elements) [element] after where
  isPrefix := ⟨elements, rfl⟩
  final_eq := by
    rw [List.foldl_cons, h]
    rfl
  wanted earlier other later hcalled hlater := by
    cases earlier with
    | nil => exact absurd (List.cons.inj hcalled).2.symm hlater
    | cons first earlier => simp at hcalled
  refused _ := ⟨[], element, rfl, congrArg Prod.snd h⟩

theorem StopsWhereAsked.cons (h : StopsWhereAsked consume after elements called final)
    (hmore : consume state element = (after, true)) :
    StopsWhereAsked consume state (element :: elements) (element :: called) final where
  isPrefix := List.prefix_cons_inj element |>.mpr h.isPrefix
  final_eq := by
    rw [List.foldl_cons, hmore]
    exact h.final_eq
  wanted earlier other later hcalled hlater := by
    cases earlier with
    | nil =>
      obtain ⟨rfl, _⟩ := List.cons.inj hcalled
      exact congrArg Prod.snd hmore
    | cons first earlier =>
      obtain ⟨rfl, hrest⟩ := List.cons.inj hcalled
      rw [List.foldl_cons, hmore]
      exact h.wanted earlier other later hrest hlater
  refused hdiffer := by
    have hrest : called ≠ elements := fun heq ↦ hdiffer (congrArg (element :: ·) heq)
    obtain ⟨earlier, last, rfl, hrefused⟩ := h.refused hrest
    refine ⟨element :: earlier, last, rfl, ?_⟩
    rw [List.foldl_cons, hmore]
    exact hrefused

/-- Whether a consumer wants more after it was called on some elements. -/
def wantsMoreAfter (consume : σ → α → σ × Bool) (state : σ) (called : List α) : Bool :=
  (called.foldl (fun answer element ↦ consume answer.1 element) (state, true)).2

/-- A reading feeds a consumer until it answers with no. Only otherwise its ending is reported. -/
theorem Reading.exists_feed_logged_ending (consume : σ → α → σ × Bool) (reading : Reading α)
    (seen : List α) (state : σ) :
    ∃ called final, StopsWhereAsked consume state reading.elements called final ∧
      reading.feed (respond (logged consume)) (seen, state) = ((seen ++ called, final),
        if wantsMoreAfter consume state called then reading.ending else .ok ()) := by
  obtain ⟨elements, ending⟩ := reading
  induction elements generalizing seen state with
  | nil =>
    refine ⟨[], state, stopsWhereAsked_nil, ?_⟩
    rw [List.append_nil]
    rfl
  | cons element elements ih =>
    have hfeed := Reading.feed_cons element ⟨elements, ending⟩ (respond (logged consume))
      (seen, state)
    rcases hanswer : consume state element with ⟨after, _ | _⟩
    · have hresponse : respond (logged consume) (seen, state) element =
          .enough (seen ++ [element], after) := by simp only [respond, logged, hanswer]
      have hrefused : wantsMoreAfter consume state [element] = false := congrArg Prod.snd hanswer
      rw [hresponse] at hfeed
      refine ⟨[element], after, stopsWhereAsked_of_refusal hanswer, hfeed.trans ?_⟩
      rw [hrefused]
      rfl
    · have hresponse : respond (logged consume) (seen, state) element =
          .more (seen ++ [element], after) := by simp only [respond, logged, hanswer]
      obtain ⟨called, final, hcalled, hrest⟩ := ih (seen ++ [element]) after
      have hwants : wantsMoreAfter consume state (element :: called) =
          wantsMoreAfter consume after called := by
        rw [wantsMoreAfter, List.foldl_cons, hanswer]
        rfl
      rw [hresponse] at hfeed
      refine ⟨element :: called, final, hcalled.cons hanswer, hfeed.trans ?_⟩
      rw [← List.append_cons, ← hwants] at hrest
      exact hrest

/-- A reading without an error feeds a consumer until it answers with no. -/
theorem Reading.exists_feed_logged (consume : σ → α → σ × Bool) (elements seen : List α)
    (state : σ) :
    ∃ called final, StopsWhereAsked consume state elements called final ∧
      Reading.feed ⟨elements, .ok ()⟩ (respond (logged consume)) (seen, state) =
        ((seen ++ called, final), .ok ()) := by
  obtain ⟨called, final, hcalled, hfeed⟩ :=
    Reading.exists_feed_logged_ending consume ⟨elements, .ok ()⟩ seen state
  rw [ite_self] at hfeed
  exact ⟨called, final, hcalled, hfeed⟩

end Consumer

/-! ## Histories -/

/-- A call that reads through a view. -/
inductive ReadCall : Type 1 where
  | visit {σ : Type} (node : Nat) (consume : σ → Nat → σ × Bool) (state : σ)
  | visitWithValues {σ : Type} (node : Nat) (fallback : ValueBits)
      (consume : σ → Nat × ValueBits → σ × Bool) (state : σ)
  | relationshipValue (source target : Nat) (fallback : ValueBits)
  | exists? (source target : Nat)
  | target? (source position : Nat)
  | degree (node : Nat)

/-- The view as a call leaves it. -/
def ReadCall.after (view : View) : ReadCall → View
  | visit node consume state => (view.visit node (respond consume) state).reader
  | visitWithValues node fallback consume state =>
    (view.visitWithValues node fallback
      (fun state target value ↦ respond consume state (target, value)) state).reader
  | relationshipValue source target fallback => (view.relationshipValue source target fallback).1
  | exists? source target => (view.exists? source target).1
  | target? source position => (view.target? source position).1
  | degree _ => view

/-- A view with its copies, and the memory in which they hold their blocks. -/
structure Readers where
  views : List View
  memory : Memory

/-- What can be done with one of several views. -/
inductive ReaderAction : Type 1 where
  | read (reader : Nat) (call : ReadCall)
  | copy (reader : Nat)

namespace Readers

def perform (readers : Readers) : ReaderAction → Readers
  | .read reader call => { readers with views := readers.views.modify reader call.after }
  | .copy reader =>
    match readers.views[reader]? with
    | none => readers
    | some view =>
      let (copied, memory) := view.copy.run readers.memory
      ⟨readers.views ++ [copied], memory⟩

def performAll (readers : Readers) (actions : List ReaderAction) : Readers :=
  actions.foldl perform readers

end Readers

/-- A call changes nothing but cursors. -/
theorem ReadCall.after_fresh (call : ReadCall) (view : View) :
    (call.after view).fresh = view.fresh := by
  cases call with
  | visit node consume state => exact view.reader_visit_fresh node _ state
  | visitWithValues node fallback consume state =>
    exact view.reader_visitWithValues_fresh node fallback _ state
  | relationshipValue source target fallback =>
    unfold after View.relationshipValue
    split_ifs
    · exact view.reader_visitWithValues_fresh source fallback _ _
    · rfl
  | exists? source target => exact view.reader_visit_fresh source _ _
  | target? source position => exact view.reader_visit_fresh source _ _
  | degree _ => rfl

theorem View.copy_fresh (view : View) (memory : Memory) :
    (view.copy.run memory).1.fresh = view.fresh :=
  view.fresh_fresh

/-- All views are on the same data, and differ in their cursors only. -/
def Readers.SameData (view : View) (readers : Readers) : Prop :=
  ∀ used ∈ readers.views, used.fresh = view.fresh

theorem Readers.SameData.perform {view : View} {readers : Readers} (h : readers.SameData view)
    (action : ReaderAction) : (readers.perform action).SameData view := by
  intro used hused
  cases action with
  | read reader call =>
    obtain ⟨i, hi⟩ := List.getElem?_of_mem hused
    rw [Readers.perform, List.getElem?_modify] at hi
    obtain ⟨original, horiginal, rfl⟩ := Option.map_eq_some_iff.mp hi
    have hsame := h original (List.mem_of_getElem? horiginal)
    by_cases hreader : reader = i
    · rw [if_pos hreader]
      exact (call.after_fresh original).trans hsame
    · rw [if_neg hreader]
      exact hsame
  | copy reader =>
    rw [Readers.perform] at hused
    cases hview : readers.views[reader]? with
    | none =>
      rw [hview] at hused
      exact h used hused
    | some original =>
      rw [hview] at hused
      rcases List.mem_append.mp hused with hold | hnew
      · exact h used hold
      · have hsame := h original (List.mem_of_getElem? hview)
        rw [List.mem_singleton.mp hnew]
        exact (original.copy_fresh readers.memory).trans hsame

theorem Readers.SameData.performAll {view : View} {readers : Readers} (h : readers.SameData view)
    (actions : List ReaderAction) : (readers.performAll actions).SameData view := by
  rw [Readers.performAll]
  induction actions generalizing readers with
  | nil => exact h
  | cons action actions ih => exact ih (h.perform action)

/-! ## Lists -/

/-- A view without a relationship property passes the fallback for every target. -/
theorem View.valueReading_of_not_hasValues {view : View} (h : view.hasValues = false) (node : Nat)
    (fallback : ValueBits) :
    view.valueReading node fallback = (view.reading node).map fun target ↦ (target, fallback) := by
  induction view generalizing node with
  | packed view =>
    have hnone : ¬ view.hasValues = true := Bool.eq_false_iff.mp h
    exact if_neg hnone
  | filtered inner filter ih =>
    unfold valueReading reading
    cases filter.root node with
    | error fault => rfl
    | ok root =>
      simp only [ih h root]
      apply Reading.pick_map
      intro target
      rfl

/-! ## Enumerations -/

/-- After any calls on a view of a built graph and on its copies, each of these views hands out the
full list of a node, with or without values: it calls the consumer on the elements up to the first
one that is answered with no. Every value comes with its own target, and it is the fallback if there
is no relationship property. -/
theorem enumeration_does_not_depend_on_history {view : View} (h : view.OfBuiltGraph)
    (memory : Memory) (actions : List ReaderAction) {used : View}
    (hused : used ∈ (Readers.performAll ⟨[view], memory⟩ actions).views) {node : Nat}
    (hnode : node < view.nodeCount) :
    (∀ (σ : Type) (consume : σ → Nat → σ × Bool) (state : σ),
      let visit := used.visit node (respond (logged consume)) ([], state)
      visit.outcome = .ok () ∧
        StopsWhereAsked consume state (view.targets node) visit.state.1 visit.state.2) ∧
    (∀ (fallback : ValueBits) (σ : Type) (consume : σ → Nat × ValueBits → σ × Bool) (state : σ),
      let visit := used.visitWithValues node fallback
        (fun state target value ↦ respond (logged consume) state (target, value)) ([], state)
      visit.outcome = .ok () ∧ StopsWhereAsked consume state (view.valuedTargets node fallback)
        visit.state.1 visit.state.2) ∧
    ∀ fallback, (view.valuedTargets node fallback).map Prod.fst = view.targets node ∧
      (view.hasValues = false → view.valuedTargets node fallback =
        (view.targets node).map fun target ↦ (target, fallback)) := by
  have hcontract := h.contract
  have hstart : Readers.SameData view ⟨[view], memory⟩ := by
    intro other hother
    rw [List.mem_singleton.mp hother]
  have hsame : used.fresh = view.fresh := hstart.performAll actions used hused
  refine ⟨fun σ consume state ↦ ?_, fun fallback σ consume state ↦ ?_, fun fallback ↦ ?_⟩
  · obtain ⟨called, final, hcalled, hfeed⟩ :=
      Reading.exists_feed_logged consume (view.targets node) [] state
    have hended := (hcontract.handsOut node hnode used hsame _ (respond (logged consume))
      ([], state)).1
    obtain ⟨hstate, houtcome⟩ := Prod.mk.inj (hended.trans hfeed)
    exact ⟨houtcome, by rw [hstate]; exact hcalled⟩
  · obtain ⟨called, final, hcalled, hfeed⟩ :=
      Reading.exists_feed_logged consume (view.valuedTargets node fallback) [] state
    have hended := (hcontract.handsOutValues node hnode fallback used hsame _
      (fun state target value ↦ respond (logged consume) state (target, value)) ([], state)).1
    obtain ⟨hstate, houtcome⟩ := Prod.mk.inj (hended.trans hfeed)
    exact ⟨houtcome, by rw [hstate]; exact hcalled⟩
  · refine ⟨hcontract.map_fst_valuedTargets node hnode fallback, fun hnone ↦ ?_⟩
    exact congrArg Reading.elements (View.valueReading_of_not_hasValues hnone node fallback)

theorem stopped_enumeration_leaves_no_trace :
    ∃ view : View, view.OfBuiltGraph ∧ ∃ node < view.nodeCount,
      let stopped := (view.visit node (respond fun (state : Unit) _ ↦ (state, false)) ()).reader
      let visit := stopped.visit node (respond (logged fun (state : Unit) _ ↦ (state, true)))
        ([], ())
      visit.outcome = .ok () ∧ visit.state.1 = view.targets node := by
  obtain ⟨graph, hcompress⟩ := exists_compress_labelledCalls
  obtain ⟨node, hlt, _⟩ := exists_hasLabel_labelledCalls
  have hvalid := GraphBuilder.valid_new.performAll labelledCalls
  obtain ⟨store, after, hstore, hkeeps⟩ := (hvalid.stores_of_compress hcompress).toStore
    (GraphBuilder.new.performAll labelledCalls).account .empty
  have hkey : ∀ k ∈ (none : Option String), k ∈ (GraphBuilder.new.performAll labelledCalls).keys :=
    nofun
  obtain ⟨packed, later, hview, hshows, _⟩ := hkeeps.view_eq hkey
  have hbuilt := View.OfBuiltGraph.opened hcompress hstore (.refl store after) hview
  have hnode : node < (View.packed packed).nodeCount := hshows.nodeCount_eq ▸ hlt
  obtain ⟨hvisit, _⟩ := enumeration_does_not_depend_on_history hbuilt later
    [.read 0 (.visit node (fun (state : Unit) _ ↦ (state, false)) ())] (.head _) hnode
  obtain ⟨houtcome, hcalled⟩ := hvisit Unit (fun state _ ↦ (state, true)) ()
  refine ⟨_, hbuilt, node, hnode, houtcome, ?_⟩
  by_contra hdiffer
  obtain ⟨_, _, _, hrefused⟩ := hcalled.refused hdiffer
  exact absurd hrefused nofun

end PackedGraph
