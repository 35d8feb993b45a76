import Mathlib
import PackedGraph.View.Enumeration

/-!
# What an enumeration hands out

The reading of a node is the sequence of elements that its enumeration hands out, with the way it
ends unless the consumer stops it before. An enumeration feeds a consumer with the reading of its
node, wherever the cursors of the view have been left, and it leaves nothing changed but cursors.
-/

namespace PackedGraph

variable {σ α β : Type}

/-- The elements that are handed out, and the outcome after the last of them. -/
structure Reading (α : Type) where
  elements : List α
  ending : Except ReadError Unit

namespace Reading

def done : Reading α := ⟨[], .ok ()⟩

def fail (error : ReadError) : Reading α := ⟨[], .error error⟩

def cons (element : α) (reading : Reading α) : Reading α :=
  ⟨element :: reading.elements, reading.ending⟩

def map (f : α → β) (reading : Reading α) : Reading β := ⟨reading.elements.map f, reading.ending⟩

/-- Feeds a consumer until it has had enough, or nothing is left. -/
def feedFrom (consume : σ → α → Response σ) (ending : Except ReadError Unit) :
    σ → List α → σ × Except ReadError Unit
  | state, [] => (state, ending)
  | state, element :: elements =>
    match consume state element with
    | .more state => feedFrom consume ending state elements
    | .enough state => (state, .ok ())
    | .broken fault => (state, .error (.fault fault))

def feed (reading : Reading α) (consume : σ → α → Response σ) (state : σ) :
    σ × Except ReadError Unit :=
  feedFrom consume reading.ending state reading.elements

theorem feed_cons (element : α) (reading : Reading α) (consume : σ → α → Response σ) (state : σ) :
    (cons element reading).feed consume state =
      match consume state element with
      | .more state => reading.feed consume state
      | .enough state => (state, .ok ())
      | .broken fault => (state, .error (.fault fault)) := rfl

/-- A consumer that never stops gets everything. -/
theorem feed_of_more (reading : Reading α) {consume : σ → α → Response σ} {f : σ → α → σ}
    (hmore : ∀ state, ∀ element ∈ reading.elements,
      consume state element = .more (f state element)) (state : σ) :
    reading.feed consume state = (reading.elements.foldl f state, reading.ending) := by
  obtain ⟨elements, ending⟩ := reading
  unfold feed
  induction elements generalizing state with
  | nil => rfl
  | cons element elements ih =>
    rw [feedFrom, hmore state element List.mem_cons_self]
    exact ih (f state element)
      fun state element h ↦ hmore state element (List.mem_cons_of_mem _ h)

theorem feed_map (f : α → β) (reading : Reading α) (consume : σ → β → Response σ) (state : σ) :
    (reading.map f).feed consume state =
      reading.feed (fun state element ↦ consume state (f element)) state := by
  obtain ⟨elements, ending⟩ := reading
  unfold feed map
  induction elements generalizing state with
  | nil => rfl
  | cons element elements ih =>
    rw [List.map_cons, feedFrom, feedFrom]
    cases consume state (f element) with
    | more state => exact ih state
    | enough state => rfl
    | broken fault => rfl

/-- The elements that are picked from a reading, up to the first on which picking fails. -/
def pickFrom (pick : α → Except Fault (Option β)) (ending : Except ReadError Unit) :
    List α → Reading β
  | [] => ⟨[], ending⟩
  | element :: elements =>
    match pick element with
    | .error fault => fail (.fault fault)
    | .ok none => pickFrom pick ending elements
    | .ok (some picked) => cons picked (pickFrom pick ending elements)

def pick (pick : α → Except Fault (Option β)) (reading : Reading α) : Reading β :=
  pickFrom pick reading.ending reading.elements

theorem feed_pick (select : α → Except Fault (Option β)) (reading : Reading α)
    (consume : σ → β → Response σ) (state : σ) :
    (reading.pick select).feed consume state =
      reading.feed (fun state element ↦
        match select element with
        | .error fault => .broken fault
        | .ok none => .more state
        | .ok (some picked) => consume state picked) state := by
  obtain ⟨elements, ending⟩ := reading
  unfold pick
  induction elements generalizing state with
  | nil => rfl
  | cons element elements ih =>
    rw [pickFrom, feed, feed, feedFrom]
    cases select element with
    | error fault => rfl
    | ok picked =>
      cases picked with
      | none => exact ih state
      | some picked =>
        simp only [cons, feedFrom]
        cases consume state picked with
        | more state => exact ih state
        | enough state => rfl
        | broken fault => rfl

theorem pick_map {α β γ δ : Type} {f : α → γ} {g : β → δ} {select : α → Except Fault (Option β)}
    {selectMapped : γ → Except Fault (Option δ)}
    (h : ∀ element, selectMapped (f element) = (select element).map (Option.map g))
    (reading : Reading α) :
    (reading.map f).pick selectMapped = (reading.pick select).map g := by
  obtain ⟨elements, ending⟩ := reading
  unfold pick
  induction elements with
  | nil => rfl
  | cons element elements ih =>
    simp only [map, List.map_cons, pickFrom, h] at ih ⊢
    rcases select element with fault | _ | picked
    · rfl
    · exact ih
    · exact congrArg (cons (g picked)) ih

theorem ending_of_pick {select : α → Except Fault (Option β)} {reading : Reading α}
    (h : (reading.pick select).ending = .ok ()) : reading.ending = .ok () := by
  obtain ⟨elements, ending⟩ := reading
  unfold pick at h
  induction elements with
  | nil => exact h
  | cons element elements ih =>
    rw [pickFrom] at h
    rcases hselect : select element with fault | _ | picked
    · rw [hselect] at h
      exact nomatch h
    · rw [hselect] at h
      exact ih h
    · rw [hselect] at h
      exact ih h

end Reading

/-- The state of the consumer and the outcome with which a visit ended. -/
def Visit.ended {ρ : Type} (visit : Visit ρ σ) : σ × Except ReadError Unit :=
  (visit.state, visit.outcome)

theorem Visit.ended_mapReader {ρ ρ' : Type} (f : ρ → ρ') (visit : Visit ρ σ) :
    (visit.mapReader f).ended = visit.ended := rfl

/-! ## Cursors -/

/-- What a cursor decodes in at most `count` steps. -/
def TargetCursor.reading (block : Pages UInt8) : (count : Nat) → TargetCursor → Reading Nat
  | 0, _ => .done
  | count + 1, cursor =>
    match cursor.next block with
    | .error error => .fail error
    | .ok (target, cursor) => .cons target (reading block count cursor)

theorem TargetCursor.ended_visitUpTo (block : Pages UInt8) (consume : σ → Nat → Response σ)
    (count : Nat) (cursor : TargetCursor) (state : σ) :
    (visitUpTo block consume count cursor state).ended =
      (reading block count cursor).feed consume state := by
  induction count generalizing cursor state with
  | zero => rfl
  | succ count ih =>
    rw [visitUpTo, reading]
    cases hnext : cursor.next block with
    | error error => rfl
    | ok step =>
      obtain ⟨target, moved⟩ := step
      simp only [Reading.feed_cons]
      cases consume state target with
      | more state => exact ih moved state
      | enough state => rfl
      | broken fault => rfl

/-- What a cursor on targets and one on values read together in at most `count` steps. -/
def PairCursor.reading (targets : Pages UInt8) (values : Pages ValueBits) :
    (count : Nat) → PairCursor → Reading (Nat × ValueBits)
  | 0, _ => .done
  | count + 1, cursor =>
    match cursor.targets.next targets with
    | .error error => .fail error
    | .ok (target, movedTargets) =>
      match cursor.values.nextBits values with
      | .error fault => .fail (.fault fault)
      | .ok (bits, movedValues) =>
        .cons (target, bits) (reading targets values count ⟨movedTargets, movedValues⟩)

theorem PairCursor.ended_visitUpTo (targets : Pages UInt8) (values : Pages ValueBits)
    (consume : σ → Nat → ValueBits → Response σ) (count : Nat) (cursor : PairCursor) (state : σ) :
    (visitUpTo targets values consume count cursor state).ended =
      (reading targets values count cursor).feed (fun state pair ↦ consume state pair.1 pair.2)
        state := by
  induction count generalizing cursor state with
  | zero => rfl
  | succ count ih =>
    rw [visitUpTo, reading]
    cases hnext : cursor.targets.next targets with
    | error error => rfl
    | ok step =>
      obtain ⟨target, movedTargets⟩ := step
      cases hbits : cursor.values.nextBits values with
      | error fault =>
        simp only [hbits]
        rfl
      | ok step =>
        obtain ⟨bits, movedValues⟩ := step
        simp only [hbits, Reading.feed_cons]
        cases consume state target bits with
        | more state => exact ih ⟨movedTargets, movedValues⟩ state
        | enough state => rfl
        | broken fault => rfl

/-! ## Blocks -/

/-- What the list of a node hands out. -/
def Topology.reading (topology : Topology) (node : Nat) : Reading Nat :=
  match topology.moveTo .exhausted node with
  | .error error => .fail error
  | .ok cursor => cursor.reading topology.block cursor.remaining

/-- Where a cursor was before it moves makes no difference, unless it stays there. -/
theorem TargetCursor.moveTo_congr (cursor other : TargetCursor) (block : Pages UInt8)
    {address : Nat} (h : address ≠ 0) (degree : Nat) :
    cursor.moveTo block address degree = other.moveTo block address degree := by
  rw [moveTo, moveTo, if_neg h, if_neg h]

/-- The cursor that is lent for a node hands out its list. -/
theorem ListCursors.reading_eq (cursors : ListCursors) (topology : Topology) (node : Nat) :
    topology.reading node =
      match cursors.lend topology node with
      | .error error => .fail error
      | .ok lent => lent.cursor.reading topology.block lent.cursor.remaining := by
  unfold Topology.reading Topology.moveTo lend
  cases topology.index.slot node with
  | error fault => rfl
  | ok slot =>
    by_cases haddress : slot.address = 0
    · simp only [if_pos haddress, LentCursor.cursor, cursors.remaining_empty]
      rw [TargetCursor.moveTo, if_pos haddress]
      rfl
    · simp only [if_neg haddress]
      rw [TargetCursor.moveTo_congr .exhausted cursors.moving topology.block haddress]
      cases cursors.moving.moveTo topology.block slot.address slot.degree <;> rfl

/-- What the list of a node hands out along with its values. -/
def Topology.valueReading (topology : Topology) (table : ValueTable) (node : Nat) :
    Reading (Nat × ValueBits) :=
  match topology.moveTo .exhausted node with
  | .error error => .fail error
  | .ok cursor =>
    match table.moveTo .exhausted node cursor.remaining with
    | .error error => .fail error
    | .ok values =>
      PairCursor.reading topology.block table.block cursor.remaining ⟨cursor, values⟩

theorem ValueCursor.moveTo_congr (cursor other : ValueCursor) (block : Pages ValueBits)
    (address degree : Nat) :
    cursor.moveTo block address degree = other.moveTo block address degree ∨
      degree = 0 ∧ cursor.moveTo block address degree = .ok { cursor with remaining := 0 } ∧
        other.moveTo block address degree = .ok { other with remaining := 0 } := by
  unfold moveTo
  by_cases h : address = 0
  · by_cases hdegree : degree = 0
    · rw [if_pos h, if_pos h, if_pos hdegree, if_pos hdegree]
      exact .inr ⟨hdegree, rfl, rfl⟩
    · rw [if_pos h, if_pos h, if_neg hdegree, if_neg hdegree]
      exact .inl rfl
  · rw [if_neg h, if_neg h]
    exact .inl rfl

/-- What a cursor on the targets of a node hands out along with the values of the node. -/
def TargetCursor.valueReading (cursor : TargetCursor) (values : ValueCursor) (topology : Topology)
    (table : ValueTable) (node : Nat) : Reading (Nat × ValueBits) :=
  match table.moveTo values node cursor.remaining with
  | .error error => .fail error
  | .ok moved =>
    PairCursor.reading topology.block table.block cursor.remaining ⟨cursor, moved⟩

theorem TargetCursor.valueReading_congr (cursor : TargetCursor) (values others : ValueCursor)
    (topology : Topology) (table : ValueTable) (node : Nat) :
    cursor.valueReading values topology table node =
      cursor.valueReading others topology table node := by
  unfold valueReading ValueTable.moveTo
  cases table.addresses[node]? with
  | none => rfl
  | some address =>
    rcases ValueCursor.moveTo_congr values others table.block address cursor.remaining with
      heq | ⟨hzero, hvalues, hothers⟩
    · simp only [heq]
    · rw [hzero] at hvalues hothers ⊢
      simp only [hvalues, hothers, Except.mapError]
      rfl

theorem TargetCursor.valueReading_of_remaining_eq_zero {cursor other : TargetCursor}
    (h : cursor.remaining = 0) (hother : other.remaining = 0) (values : ValueCursor)
    (topology : Topology) (table : ValueTable) (node : Nat) :
    cursor.valueReading values topology table node =
      other.valueReading values topology table node := by
  rw [valueReading, valueReading, h, hother]
  cases table.moveTo values node 0 <;> rfl

/-- The cursor that is lent for a node hands out its list along with its values. -/
theorem ListCursors.valueReading_eq (cursors : ListCursors) (values : ValueCursor)
    (topology : Topology) (table : ValueTable) (node : Nat) :
    topology.valueReading table node =
      match cursors.lend topology node with
      | .error error => .fail error
      | .ok lent => lent.cursor.valueReading values topology table node := by
  have hreading : topology.valueReading table node =
      match topology.moveTo .exhausted node with
      | .error error => .fail error
      | .ok cursor => cursor.valueReading .exhausted topology table node := rfl
  rw [hreading]
  unfold Topology.moveTo lend
  cases topology.index.slot node with
  | error fault => rfl
  | ok slot =>
    by_cases haddress : slot.address = 0
    · simp only [if_pos haddress, LentCursor.cursor]
      rw [TargetCursor.moveTo, if_pos haddress]
      calc
        _ = cursors.empty.valueReading .exhausted topology table node :=
          TargetCursor.valueReading_of_remaining_eq_zero rfl cursors.remaining_empty ..
        _ = cursors.empty.valueReading values topology table node :=
          cursors.empty.valueReading_congr ..
    · simp only [if_neg haddress]
      rw [TargetCursor.moveTo_congr .exhausted cursors.moving topology.block haddress]
      cases cursors.moving.moveTo topology.block slot.address slot.degree with
      | error error => rfl
      | ok cursor => exact cursor.valueReading_congr ..

/-! ## Views -/

namespace PackedView

def reading (view : PackedView) (node : Nat) : Reading Nat :=
  match view.topology with
  | none => .fail (.fault .topologyReleased)
  | some reader => reader.topology.reading node

def valueReading (view : PackedView) (node : Nat) (fallback : ValueBits) :
    Reading (Nat × ValueBits) :=
  if view.hasValues then
    match view.topology, view.values with
    | none, _ => .fail (.fault .topologyReleased)
    | some _, none => .fail (.fault .valuesReleased)
    | some reader, some values => reader.topology.valueReading values.table node
  else (view.reading node).map fun target ↦ (target, fallback)

theorem reading_fresh (view : PackedView) (node : Nat) :
    view.fresh.reading node = view.reading node := by
  unfold reading fresh
  cases view.topology <;> rfl

theorem valueReading_fresh (view : PackedView) (node : Nat) (fallback : ValueBits) :
    view.fresh.valueReading node fallback = view.valueReading node fallback := by
  unfold valueReading
  rw [reading_fresh]
  unfold fresh
  cases view.topology <;> cases view.values <;> rfl

theorem ended_visit (view : PackedView) (node : Nat) (consume : σ → Nat → Response σ) (state : σ) :
    (view.visit node consume state).ended = (view.reading node).feed consume state := by
  unfold visit reading
  cases view.topology with
  | none => rfl
  | some reader =>
    simp only [reader.cursors.reading_eq]
    cases reader.cursors.lend reader.topology node with
    | error error => rfl
    | ok lent => exact TargetCursor.ended_visitUpTo _ consume _ lent.cursor state

theorem reader_visit_fresh (view : PackedView) (node : Nat) (consume : σ → Nat → Response σ)
    (state : σ) : (view.visit node consume state).reader.fresh = view.fresh := by
  unfold visit
  cases htopology : view.topology with
  | none => rfl
  | some reader =>
    cases hlend : reader.cursors.lend reader.topology node with
    | error error => simp only [hlend]
    | ok lent =>
      simp only [hlend, Visit.mapReader, fresh, htopology]
      rfl

theorem ended_visitWithValues (view : PackedView) (node : Nat) (fallback : ValueBits)
    (consume : σ → Nat → ValueBits → Response σ) (state : σ) :
    (view.visitWithValues node fallback consume state).ended =
      (view.valueReading node fallback).feed (fun state pair ↦ consume state pair.1 pair.2)
        state := by
  unfold visitWithValues valueReading
  by_cases hvalues : view.hasValues
  · rw [if_pos hvalues, if_pos hvalues]
    cases view.topology with
    | none => rfl
    | some reader =>
      cases view.values with
      | none => rfl
      | some values =>
        simp only [reader.cursors.valueReading_eq values.cursor]
        cases reader.cursors.lend reader.topology node with
        | error error => rfl
        | ok lent =>
          simp only [TargetCursor.valueReading]
          cases values.table.moveTo values.cursor node lent.cursor.remaining with
          | error error => rfl
          | ok cursor => exact PairCursor.ended_visitUpTo _ _ consume _ _ state
  · rw [if_neg hvalues, if_neg hvalues, ended_visit, Reading.feed_map]

theorem reader_visitWithValues_fresh (view : PackedView) (node : Nat) (fallback : ValueBits)
    (consume : σ → Nat → ValueBits → Response σ) (state : σ) :
    (view.visitWithValues node fallback consume state).reader.fresh = view.fresh := by
  unfold visitWithValues
  by_cases hvalues : view.hasValues
  · rw [if_pos hvalues]
    cases htopology : view.topology with
    | none => rfl
    | some reader =>
      cases hreader : view.values with
      | none => rfl
      | some values =>
        cases hlend : reader.cursors.lend reader.topology node with
        | error error => simp only [hlend]
        | ok lent =>
          cases hmove : values.table.moveTo values.cursor node lent.cursor.remaining with
          | error error =>
            simp only [hlend, hmove, fresh, htopology, hreader]
            rfl
          | ok cursor =>
            simp only [hlend, hmove, Visit.mapReader, fresh, htopology, hreader]
            rfl
  · rw [if_neg hvalues]
    exact reader_visit_fresh view node _ state

end PackedView

namespace View

def reading : View → (node : Nat) → Reading Nat
  | packed view, node => view.reading node
  | filtered inner filter, node =>
    match filter.root node with
    | .error fault => .fail (.fault fault)
    | .ok root => (inner.reading root).pick filter.filtered

def valueReading : View → (node : Nat) → (fallback : ValueBits) → Reading (Nat × ValueBits)
  | packed view, node, fallback => view.valueReading node fallback
  | filtered inner filter, node, fallback =>
    match filter.root node with
    | .error fault => .fail (.fault fault)
    | .ok root => (inner.valueReading root fallback).pick fun pair ↦
      (filter.filtered pair.1).map fun kept ↦ kept.map fun target ↦ (target, pair.2)

theorem reading_fresh (view : View) (node : Nat) : view.fresh.reading node = view.reading node := by
  induction view generalizing node with
  | packed view => exact view.reading_fresh node
  | filtered inner filter ih =>
    have hinner (root : Nat) : (inner.mapBase PackedView.fresh).reading root = inner.reading root :=
      ih root
    simp only [fresh, mapBase, reading, hinner]

theorem valueReading_fresh (view : View) (node : Nat) (fallback : ValueBits) :
    view.fresh.valueReading node fallback = view.valueReading node fallback := by
  induction view generalizing node with
  | packed view => exact view.valueReading_fresh node fallback
  | filtered inner filter ih =>
    have hinner (root : Nat) : (inner.mapBase PackedView.fresh).valueReading root fallback =
        inner.valueReading root fallback := ih root
    simp only [fresh, mapBase, valueReading, hinner]

theorem fresh_fresh (view : View) : view.fresh.fresh = view.fresh := by
  induction view with
  | packed view =>
    obtain ⟨ids, columns, topology, values, _, _, _, _, _⟩ := view
    cases topology <;> cases values <;> rfl
  | filtered inner filter ih => exact congrArg (filtered · filter) ih

theorem nodeCount_fresh (view : View) : view.fresh.nodeCount = view.nodeCount := by
  cases view <;> rfl

theorem nodeCount_congr {view other : View} (h : view.fresh = other.fresh) :
    view.nodeCount = other.nodeCount := by
  rw [← nodeCount_fresh, h, nodeCount_fresh]

/-- The targets of a node as far as they can be read. -/
def targets (view : View) (node : Nat) : List Nat := (view.reading node).elements

/-- The targets and values of a node as far as they can be read. -/
def valuedTargets (view : View) (node : Nat) (fallback : ValueBits) : List (Nat × ValueBits) :=
  (view.valueReading node fallback).elements

theorem reading_congr {view other : View} (h : view.fresh = other.fresh) (node : Nat) :
    view.reading node = other.reading node := by
  rw [← reading_fresh, h, reading_fresh]

theorem valueReading_congr {view other : View} (h : view.fresh = other.fresh) (node : Nat)
    (fallback : ValueBits) :
    view.valueReading node fallback = other.valueReading node fallback := by
  rw [← valueReading_fresh, h, valueReading_fresh]

/-- An enumeration feeds the consumer with the reading of its node. -/
theorem ended_visit (view : View) (node : Nat) (consume : σ → Nat → Response σ) (state : σ) :
    (view.visit node consume state).ended = (view.reading node).feed consume state := by
  induction view generalizing node consume state with
  | packed view => exact view.ended_visit node consume state
  | filtered inner filter ih =>
    unfold visit reading
    cases filter.root node with
    | error fault => rfl
    | ok root =>
      simp only [Visit.ended_mapReader, ih, Reading.feed_pick]
      congr 1
      funext state target
      cases filter.filtered target with
      | error fault => rfl
      | ok kept => cases kept <;> rfl

theorem ended_visitWithValues (view : View) (node : Nat) (fallback : ValueBits)
    (consume : σ → Nat → ValueBits → Response σ) (state : σ) :
    (view.visitWithValues node fallback consume state).ended =
      (view.valueReading node fallback).feed (fun state pair ↦ consume state pair.1 pair.2)
        state := by
  induction view generalizing node consume state with
  | packed view => exact view.ended_visitWithValues node fallback consume state
  | filtered inner filter ih =>
    unfold visitWithValues valueReading
    cases filter.root node with
    | error fault => rfl
    | ok root =>
      simp only [Visit.ended_mapReader, ih, Reading.feed_pick]
      congr 1
      funext state pair
      cases filter.filtered pair.1 with
      | error fault => rfl
      | ok kept => cases kept <;> rfl

/-- An enumeration changes nothing but cursors. -/
theorem reader_visit_fresh (view : View) (node : Nat) (consume : σ → Nat → Response σ)
    (state : σ) : (view.visit node consume state).reader.fresh = view.fresh := by
  induction view generalizing node consume state with
  | packed view => exact congrArg packed (view.reader_visit_fresh node consume state)
  | filtered inner filter ih =>
    unfold visit
    cases filter.root node with
    | error fault => rfl
    | ok root => exact congrArg (filtered · filter) (ih root _ state)

theorem reader_visitWithValues_fresh (view : View) (node : Nat) (fallback : ValueBits)
    (consume : σ → Nat → ValueBits → Response σ) (state : σ) :
    (view.visitWithValues node fallback consume state).reader.fresh = view.fresh := by
  induction view generalizing node consume state with
  | packed view =>
    exact congrArg packed (view.reader_visitWithValues_fresh node fallback consume state)
  | filtered inner filter ih =>
    unfold visitWithValues
    cases filter.root node with
    | error fault => rfl
    | ok root => exact congrArg (filtered · filter) (ih root _ state)

/-- Without a limit, all relationships of a node are collected. -/
theorem ended_relationshipsWithValues (view : View) (node : Nat) (fallback : ValueBits) :
    (view.relationshipsWithValues node fallback none).ended =
      (view.valuedTargets node fallback, (view.valueReading node fallback).ending) := by
  have hended := view.ended_visitWithValues node fallback
    (fun seen target value ↦ collect none seen (target, value)) []
  have hfeed : (view.valueReading node fallback).feed
      (fun seen pair ↦ collect none seen (pair.1, pair.2)) [] =
        ((view.valuedTargets node fallback).foldl (fun seen pair ↦ pair :: seen) [],
          (view.valueReading node fallback).ending) :=
    Reading.feed_of_more _ (fun _ _ _ ↦ rfl) []
  rw [hfeed] at hended
  calc
    _ = (((view.valuedTargets node fallback).foldl (fun seen pair ↦ pair :: seen) []).reverse,
          (view.valueReading node fallback).ending) :=
      congrArg (Prod.map List.reverse id) hended
    _ = (view.valuedTargets node fallback, (view.valueReading node fallback).ending) := by simp

theorem relationshipsWithValues_eq (view : View) (node : Nat) (fallback : ValueBits) :
    (view.relationshipsWithValues node fallback none).state = view.valuedTargets node fallback ∧
      (view.relationshipsWithValues node fallback none).reader.fresh = view.fresh :=
  ⟨congrArg Prod.fst (view.ended_relationshipsWithValues node fallback),
    view.reader_visitWithValues_fresh node fallback _ []⟩

theorem outcome_relationshipsWithValues (view : View) (node : Nat) (fallback : ValueBits) :
    (view.relationshipsWithValues node fallback none).outcome =
      (view.valueReading node fallback).ending :=
  congrArg Prod.snd (view.ended_relationshipsWithValues node fallback)

end View

/-! ## Targets that are read along with values -/

theorem PairCursor.targets_reading {targets : Pages UInt8} {values : Pages ValueBits} {count : Nat}
    {cursor : PairCursor} (h : (reading targets values count cursor).ending = .ok ()) :
    cursor.targets.reading targets count = (reading targets values count cursor).map Prod.fst := by
  induction count generalizing cursor with
  | zero => rfl
  | succ count ih =>
    rw [reading] at h ⊢
    rw [TargetCursor.reading]
    cases hnext : cursor.targets.next targets with
    | error error =>
      rw [hnext] at h
      exact nomatch h
    | ok step =>
      obtain ⟨target, movedTargets⟩ := step
      simp only [hnext] at h ⊢
      cases hbits : cursor.values.nextBits values with
      | error fault =>
        rw [hbits] at h
        exact nomatch h
      | ok step =>
        rw [hbits] at h
        exact congrArg (Reading.cons target) (ih h)

theorem Topology.reading_of_valueReading {topology : Topology} {table : ValueTable} {node : Nat}
    (h : (topology.valueReading table node).ending = .ok ()) :
    topology.reading node = (topology.valueReading table node).map Prod.fst := by
  unfold valueReading at h ⊢
  unfold reading
  cases hmove : topology.moveTo .exhausted node with
  | error error =>
    rw [hmove] at h
    exact nomatch h
  | ok cursor =>
    simp only [hmove] at h ⊢
    cases hvalues : table.moveTo .exhausted node cursor.remaining with
    | error error =>
      rw [hvalues] at h
      exact nomatch h
    | ok values =>
      rw [hvalues] at h
      exact PairCursor.targets_reading h

theorem PackedView.reading_of_valueReading {view : PackedView} {node : Nat} {fallback : ValueBits}
    (h : (view.valueReading node fallback).ending = .ok ()) :
    view.reading node = (view.valueReading node fallback).map Prod.fst := by
  unfold valueReading at h ⊢
  by_cases hvalues : view.hasValues
  · rw [if_pos hvalues] at h ⊢
    unfold reading
    cases htopology : view.topology with
    | none =>
      rw [htopology] at h
      exact nomatch h
    | some reader =>
      cases htable : view.values with
      | none =>
        rw [htopology, htable] at h
        exact nomatch h
      | some values =>
        rw [htopology, htable] at h
        exact Topology.reading_of_valueReading h
  · rw [if_neg hvalues, Reading.map, Reading.map, List.map_map]
    exact congrArg (Reading.mk · _) (List.map_id _).symm

/-- Relationships that can be read with their values can be read without them. -/
theorem View.reading_of_valueReading {view : View} {node : Nat} {fallback : ValueBits}
    (h : (view.valueReading node fallback).ending = .ok ()) :
    view.reading node = (view.valueReading node fallback).map Prod.fst := by
  induction view generalizing node with
  | packed view => exact PackedView.reading_of_valueReading h
  | filtered inner filter ih =>
    unfold valueReading at h ⊢
    unfold reading
    cases hroot : filter.root node with
    | error fault =>
      rw [hroot] at h
      exact nomatch h
    | ok root =>
      simp only [hroot] at h ⊢
      rw [ih (Reading.ending_of_pick h)]
      apply Reading.pick_map
      intro pair
      rcases filter.filtered pair.1 with fault | _ | target <;> rfl

end PackedGraph
