import PackedGraph.Proofs.View.Reading
import PackedGraph.View.Filtering
import PackedGraph.View.Triangle

/-!
# Errors that reading never reports

Taking more bytes from a counter than it holds is the fault of a ledger. No enumeration, filter or
triangle finder of a view reports it as its own, so a call that reports it has broken the ledger.
-/

namespace PackedGraph

/-- No error of a result passes a test. -/
def Avoids {ε α : Type} (test : ε → Bool) (result : Except ε α) : Prop :=
  ∀ error, result = .error error → test error = false

namespace Avoids

variable {ε ε' α β : Type} {test : ε → Bool}

theorem ok (a : α) : Avoids test (.ok a) := nofun

theorem error {error : ε} (h : test error = false) : Avoids test (.error error : Except ε α) :=
  fun _ heq ↦ Except.error.inj heq ▸ h

theorem bind {result : Except ε α} {next : α → Except ε β} (h : Avoids test result)
    (hnext : ∀ a, Avoids test (next a)) : Avoids test (result >>= next) := by
  cases result with
  | error error => exact Avoids.error (h error rfl)
  | ok a => exact hnext a

theorem map {result : Except ε α} (h : Avoids test result) (f : α → β) :
    Avoids test (result.map f) := by
  cases result with
  | error error => exact Avoids.error (h error rfl)
  | ok a => exact Avoids.ok (f a)

theorem mapError {test' : ε' → Bool} {f : ε → ε'} {result : Except ε α} (h : Avoids test result)
    (hf : ∀ error, test' (f error) = test error) : Avoids test' (result.mapError f) := by
  cases result with
  | error error => exact Avoids.error ((hf error).trans (h error rfl))
  | ok a => exact Avoids.ok a

variable {l : List α}

theorem mapM {f : α → Except ε β} (h : ∀ a, Avoids test (f a)) : Avoids test (l.mapM f) := by
  induction l with
  | nil => exact Avoids.ok []
  | cons a l ih =>
    rw [List.mapM_cons]
    exact (h a).bind fun _ ↦ ih.bind fun _ ↦ Avoids.ok _

theorem foldlM {f : β → α → Except ε β} (h : ∀ b a, Avoids test (f b a)) (b : β) :
    Avoids test (l.foldlM f b) := by
  induction l generalizing b with
  | nil => exact Avoids.ok b
  | cons a l ih =>
    rw [List.foldlM_cons]
    exact (h b a).bind ih

theorem anyM {f : α → Except ε Bool} (h : ∀ a, Avoids test (f a)) : Avoids test (l.anyM f) := by
  induction l with
  | nil => exact Avoids.ok false
  | cons a l ih =>
    rw [List.anyM_cons]
    apply (h a).bind
    rintro (_ | _)
    · exact ih
    · exact Avoids.ok true

theorem filterM {f : α → Except ε Bool} (h : ∀ a, Avoids test (f a)) :
    Avoids test (l.filterM f) := by
  have haux (seen : List α) : Avoids test (l.filterAuxM f seen) := by
    induction l generalizing seen with
    | nil => exact Avoids.ok seen
    | cons a l ih => exact (h a).bind fun _ ↦ ih _
  exact (haux []).bind fun _ ↦ Avoids.ok _

end Avoids

/-- More bytes were taken from a counter than it holds. -/
def Fault.isOverdraft : Fault → Bool
  | untrackedBytes _ _ => true
  | _ => false

def ReadError.isOverdraft : ReadError → Bool
  | decode _ => false
  | fault broken => broken.isOverdraft

def ViewError.isOverdraft : ViewError → Bool
  | read error => error.isOverdraft
  | _ => false

/-! ## Readings -/

namespace Reading

variable {σ α β : Type}

theorem avoids_feed {reading : Reading α} {consume : σ → α → Response σ}
    (hending : Avoids ReadError.isOverdraft reading.ending)
    (hconsume : ∀ state element fault, consume state element = .broken fault →
      fault.isOverdraft = false) (state : σ) :
    Avoids ReadError.isOverdraft (reading.feed consume state).2 := by
  obtain ⟨elements, ending⟩ := reading
  unfold feed
  induction elements generalizing state with
  | nil => exact hending
  | cons element elements ih =>
    rw [feedFrom]
    cases hresponse : consume state element with
    | more state => exact ih state hending
    | enough state => exact Avoids.ok ()
    | broken fault => exact Avoids.error (hconsume state element fault hresponse)

theorem avoids_pick {reading : Reading α} {select : α → Except Fault (Option β)}
    (hending : Avoids ReadError.isOverdraft reading.ending)
    (hselect : ∀ element, Avoids Fault.isOverdraft (select element)) :
    Avoids ReadError.isOverdraft (reading.pick select).ending := by
  obtain ⟨elements, ending⟩ := reading
  unfold pick
  induction elements with
  | nil => exact hending
  | cons element elements ih =>
    rw [pickFrom]
    cases hpicked : select element with
    | error fault => exact Avoids.error (hselect element fault hpicked)
    | ok picked =>
      cases picked with
      | none => exact ih hending
      | some picked => exact ih hending

end Reading

theorem TargetCursor.avoids_next (cursor : TargetCursor) (block : Pages UInt8) :
    Avoids ReadError.isOverdraft (cursor.next block) := by
  unfold next
  split
  · exact Avoids.error rfl
  · split
    · exact Avoids.error rfl
    · split
      · exact Avoids.error rfl
      · dsimp only
        split
        · exact Avoids.ok _
        · exact Avoids.error rfl

theorem TargetCursor.avoids_reading (block : Pages UInt8) (count : Nat) (cursor : TargetCursor) :
    Avoids ReadError.isOverdraft (reading block count cursor).ending := by
  induction count generalizing cursor with
  | zero => exact Avoids.ok ()
  | succ count ih =>
    rw [reading]
    cases hnext : cursor.next block with
    | error error => exact Avoids.error (cursor.avoids_next block error hnext)
    | ok step => exact ih step.2

theorem Topology.avoids_moveTo (topology : Topology) (cursor : TargetCursor) (node : Nat) :
    Avoids ReadError.isOverdraft (topology.moveTo cursor node) := by
  unfold moveTo TargetIndex.slot
  cases topology.index.slots[node]? with
  | none => exact Avoids.error rfl
  | some slot =>
    dsimp only
    cases cursor.moveTo topology.block slot.address slot.degree with
    | error error => exact Avoids.error rfl
    | ok moved => exact Avoids.ok moved

theorem Topology.avoids_reading (topology : Topology) (node : Nat) :
    Avoids ReadError.isOverdraft (topology.reading node).ending := by
  unfold reading
  cases hmove : topology.moveTo .exhausted node with
  | error error => exact Avoids.error (topology.avoids_moveTo .exhausted node error hmove)
  | ok cursor => exact TargetCursor.avoids_reading _ _ cursor

theorem Filter.avoids_root (filter : Filter) (node : Nat) :
    Avoids Fault.isOverdraft (filter.root node) := by
  unfold root
  cases filter.toRoot[node]? with
  | none => exact Avoids.error rfl
  | some root => exact Avoids.ok root

theorem Filter.avoids_filtered (filter : Filter) (node : Nat) :
    Avoids Fault.isOverdraft (filter.filtered node) := by
  unfold filtered
  cases filter.toFiltered[node]? with
  | none => exact Avoids.error rfl
  | some kept => exact Avoids.ok kept

theorem Column.avoids_element {α : Type} (values : Array α) (node : Nat) :
    Avoids Fault.isOverdraft (element values node) := by
  unfold element
  cases values[node]? with
  | none => exact Avoids.error rfl
  | some value => exact Avoids.ok value

theorem Column.avoids_select (column : Column) (nodes : Array Nat) :
    Avoids Fault.isOverdraft (column.select nodes) := by
  have hmapM {α : Type} (values : Array α) :
      Avoids Fault.isOverdraft (nodes.mapM (element values)) := by
    rw [Array.mapM_eq_mapM_toList]
    exact (Avoids.mapM fun _ ↦ avoids_element values _).map _
  cases column with
  | long values => exact (hmapM values).map _
  | double values => exact (hmapM values).map _
  | doubleArray values => exact (hmapM values).map _

namespace View

theorem avoids_reading (view : View) (node : Nat) :
    Avoids ReadError.isOverdraft (view.reading node).ending := by
  induction view generalizing node with
  | packed view =>
    unfold reading PackedView.reading
    cases view.topology with
    | none => exact Avoids.error rfl
    | some reader => exact reader.topology.avoids_reading node
  | filtered inner filter ih =>
    unfold reading
    cases hroot : filter.root node with
    | error fault => exact Avoids.error (filter.avoids_root node fault hroot)
    | ok root => exact Reading.avoids_pick (ih root) filter.avoids_filtered

/-- An enumeration overdraws only if its consumer does. -/
theorem avoids_visit {σ : Type} (view : View) (node : Nat) {consume : σ → Nat → Response σ}
    (hconsume : ∀ state target fault, consume state target = .broken fault →
      fault.isOverdraft = false) (state : σ) :
    Avoids ReadError.isOverdraft (view.visit node consume state).result := by
  have hended := Reading.avoids_feed (view.avoids_reading node) hconsume state
  rw [← view.ended_visit] at hended
  exact Avoids.map hended _

theorem avoids_hasLabel (view : View) (node : Nat) (label : String) :
    Avoids Fault.isOverdraft (view.hasLabel node label) := by
  induction view generalizing node with
  | packed view => exact Avoids.ok _
  | filtered inner filter ih => exact (filter.avoids_root node).bind ih

theorem avoids_keptDegrees (toFiltered : Array (Option Nat)) (nodes : List Nat) (view : View) :
    Avoids ReadError.isOverdraft (view.keptDegrees toFiltered nodes) := by
  induction nodes generalizing view with
  | nil => exact Avoids.ok _
  | cons node nodes ih =>
    rw [keptDegrees]
    refine (view.avoids_visit node ?_ 0).bind fun _ ↦ (ih _).bind fun _ ↦ Avoids.ok _
    intro degree target fault hbroken
    split at hbroken
    · exact absurd hbroken nofun
    · exact Response.broken.inj hbroken ▸ rfl

/-- A filter never overdraws. -/
theorem avoids_filter (view : View) (labels : List String) :
    Avoids ViewError.isOverdraft (view.filter labels) := by
  unfold filter
  split
  · exact Avoids.error rfl
  · apply Avoids.bind
    · have hroots : Avoids Fault.isOverdraft (view.nodesWithLabels labels) :=
        Avoids.filterM fun _ ↦ Avoids.anyM fun _ ↦ view.avoids_hasLabel _ _
      exact hroots.mapError fun _ ↦ rfl
    · intro roots
      apply Avoids.bind
      · exact (view.avoids_keptDegrees _ roots).mapError fun _ ↦ rfl
      · rintro ⟨used, degrees⟩
        apply Avoids.bind
        · have hcolumns : Avoids Fault.isOverdraft (used.selectColumns roots.toArray) :=
            Avoids.foldlM (fun _ _ ↦ (Column.avoids_select _ _).bind fun _ ↦ Avoids.ok _) _
          exact hcolumns.mapError fun _ ↦ rfl
        · exact fun _ ↦ Avoids.ok _

theorem avoids_triangles (view : View) (maxDegree : Nat) :
    Avoids ViewError.isOverdraft (view.triangles maxDegree) := by
  unfold triangles
  split
  · exact Avoids.error rfl
  · split
    · split
      · exact Avoids.ok _
      · exact Avoids.error rfl
    · exact Avoids.error rfl

end View

end PackedGraph
