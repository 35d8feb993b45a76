import PackedGraph.Proofs.Build.Calls
import PackedGraph.Proofs.Running
import PackedGraph.Proofs.View.Overdraft
import PackedGraph.Session.Basic

/-!
# Sequences of session calls

The calls of a session as data, and the equations for running their parts.
-/

namespace PackedGraph

/-! ## Names -/

namespace Named

variable {α : Type} {values : Named α} {name other : String} {value : α}

/-- No name is used twice. -/
def Distinct (values : Named α) : Prop := (values.map Prod.fst).Nodup

theorem distinct_nil : Distinct ([] : Named α) := List.nodup_nil

theorem Distinct.erase (h : values.Distinct) (name : String) : (values.erase name).Distinct :=
  h.sublist (List.filter_sublist.map Prod.fst)

theorem Distinct.insert (h : values.Distinct) (name : String) (value : α) :
    (values.insert name value).Distinct := by
  refine List.nodup_cons.mpr ⟨?_, h.erase name⟩
  rintro hmem
  obtain ⟨entry, hentry, rfl⟩ := List.mem_map.mp hmem
  simpa using (List.mem_filter.mp hentry).2

theorem erase_of_lookup_none (h : values.lookup name = none) : values.erase name = values := by
  rw [erase, List.filter_eq_self]
  intro entry hentry
  exact bne_iff_ne.mpr (bne_iff_ne.mp (List.lookup_eq_none_iff.mp h entry hentry)).symm

/-- The value of a name comes before all others. -/
theorem Distinct.perm_erase (h : values.Distinct) (hvalue : values.lookup name = some value) :
    ((name, value) :: values.erase name).Perm values := by
  induction values with
  | nil => exact absurd hvalue nofun
  | cons entry values ih =>
    obtain ⟨key, first⟩ := entry
    obtain ⟨hkey, hvalues⟩ := List.nodup_cons.mp h
    rw [List.lookup_cons] at hvalue
    by_cases hname : name = key
    · subst hname
      rw [BEq.rfl] at hvalue
      obtain rfl := Option.some.inj hvalue
      have hrest : Named.erase ((name, first) :: values) name = values := by
        rw [Named.erase, List.filter_cons_of_neg (by simp), List.filter_eq_self]
        intro entry hentry
        apply bne_iff_ne.mpr
        rintro rfl
        exact hkey (List.mem_map.mpr ⟨entry, hentry, rfl⟩)
      rw [hrest]
    · rw [beq_eq_false_iff_ne.mpr hname] at hvalue
      have hrest : Named.erase ((key, first) :: values) name =
          (key, first) :: Named.erase values name :=
        List.filter_cons_of_pos (by simpa using Ne.symm hname)
      rw [hrest]
      exact (List.Perm.swap _ _ _).trans ((ih hvalues hvalue).cons _)

theorem lookup_insert_self (values : Named α) (name : String) (value : α) :
    (values.insert name value).lookup name = some value :=
  List.lookup_cons_self

theorem lookup_erase_self (values : Named α) (name : String) :
    (values.erase name).lookup name = none := by
  rw [List.lookup_eq_none_iff]
  intro entry hentry
  exact bne_iff_ne.mpr (bne_iff_ne.mp (List.mem_filter.mp hentry).2).symm

theorem lookup_erase_of_ne (h : other ≠ name) :
    (values.erase name).lookup other = values.lookup other := by
  induction values with
  | nil => rfl
  | cons entry values ih =>
    obtain ⟨key, first⟩ := entry
    rw [List.lookup_cons]
    by_cases hkey : key = name
    · have hrest : Named.erase ((key, first) :: values) name = Named.erase values name :=
        List.filter_cons_of_neg (by simpa using hkey)
      rw [hrest, ih, beq_eq_false_iff_ne.mpr (hkey ▸ h)]
    · have hrest : Named.erase ((key, first) :: values) name =
          (key, first) :: Named.erase values name :=
        List.filter_cons_of_pos (by simpa using hkey)
      rw [hrest, List.lookup_cons, ih]

theorem lookup_insert_of_ne (h : other ≠ name) :
    (values.insert name value).lookup other = values.lookup other := by
  rw [insert, List.lookup_cons, beq_eq_false_iff_ne.mpr h]
  exact lookup_erase_of_ne h

/-- Inserting a value where it is already. -/
theorem lookup_insert_of_lookup (h : values.lookup name = some value) (other : String) :
    (values.insert name value).lookup other = values.lookup other := by
  by_cases hother : other = name
  · rw [hother, lookup_insert_self, h]
  · exact lookup_insert_of_ne hother

end Named

/-! ## Calls -/

/-- A call of a session. A view may be read in any way that changes nothing but its cursors. -/
inductive SessionCall where
  | setAccount (isCounting : Bool)
  | builder (call : BuilderCall)
  | build (name : String)
  | openView (name : String) (key : Option String) (as : String)
  | copy (name as : String)
  | filter (name : String) (labels : List String) (as : String)
  | unfilter (name as : String)
  | setCanRelease (name : String) (canRelease : Bool)
  | releaseTopology (name : String)
  | releaseValues (name : String)
  | read (name : String) (question : View → View)
      (h : ∀ view, (question view).fresh = view.fresh)
  | findTriangles (name : String) (maxDegree : Nat) (as : String)
  | trianglesOf (name : String) (node : Nat)
  | drop (name : String)

/-- The call itself, without its answer. -/
def SessionCall.toCall : SessionCall → Session.Call Unit
  | setAccount isCounting => Session.setAccount isCounting
  | builder call => (fun _ ↦ ()) <$> Session.onBuilder call.toCall
  | build name => (fun _ ↦ ()) <$> Session.build name
  | openView name key as => Session.openView name key as
  | copy name as => Session.copy name as
  | filter name labels as => Session.filter name labels as
  | unfilter name as => Session.unfilter name as
  | setCanRelease name canRelease => Session.setCanRelease name canRelease
  | releaseTopology name => Session.releaseTopology name
  | releaseValues name => Session.releaseValues name
  | read name question _ => Session.query id name fun view ↦ (question view, .ok ())
  | findTriangles name maxDegree as => Session.findTriangles name maxDegree as
  | trianglesOf name node => (fun _ ↦ ()) <$> Session.trianglesOf name node
  | drop name => (fun _ ↦ ()) <$> Session.drop name

namespace Session

/-- The outcome of a call, and the session after it. -/
def perform (session : Session) (call : SessionCall) : Except SessionError Unit × Session :=
  call.toCall.run.run session

def performAll (session : Session) (calls : List SessionCall) : Session :=
  calls.foldl (fun session call ↦ (session.perform call).2) session

variable {ε α : Type} {session : Session}

theorem run_fromExcept (toError : ε → SessionError) (result : Except ε α) (session : Session) :
    (fromExcept toError result).run.run session = (result.mapError toError, session) :=
  run_ofExcept _ session

theorem run_onMemory (session : Session) (toError : ε → SessionError)
    {update : ExceptT ε (StateM Memory) α} {result : Except ε α} {memory : Memory}
    (h : update.run.run session.memory = (result, memory)) :
    (onMemory toError update).run.run session =
      (result.mapError toError, { session with memory }) := by
  have hset (state : Session) : (set state : Call Unit).run.run session = (.ok (), state) := rfl
  simp only [onMemory, run_bind, run_get, h, hset, run_fromExcept]

theorem run_onBuilder (call : GraphBuilder.Call α) (session : Session) :
    (onBuilder call).run.run session =
      ((call.run.run session.builder).1.mapError SessionError.build,
        { session with builder := (call.run.run session.builder).2 }) := by
  have hset (state : Session) : (set state : Call Unit).run.run session = (.ok (), state) := rfl
  cases hrun : call.run.run session.builder with
  | mk result builder => simp only [onBuilder, run_bind, run_get, hrun, hset, run_fromExcept]

theorem perform_builder (session : Session) (call : BuilderCall) :
    session.perform (.builder call) =
      (((session.builder.perform call).1.mapError SessionError.build).map fun _ ↦ (),
        { session with builder := (session.builder.perform call).2 }) := by
  rw [perform, SessionCall.toCall, run_map, run_onBuilder, GraphBuilder.perform]

theorem run_store (session : Session) (name : String) :
    (store name).run.run session =
      (match session.stores.lookup name with
        | some store => .ok store
        | none => .error .missing, session) := by
  simp only [store, run_bind, run_get]
  cases session.stores.lookup name <;> rfl

theorem run_view (session : Session) (name : String) :
    (view name).run.run session =
      (match session.views.lookup name with
        | some view => .ok view
        | none => .error .missing, session) := by
  simp only [view, run_bind, run_get]
  cases session.views.lookup name <;> rfl

theorem run_finder (session : Session) (name : String) :
    (finder name).run.run session =
      (match session.finders.lookup name with
        | some finder => .ok finder
        | none => .error .missing, session) := by
  simp only [finder, run_bind, run_get]
  cases session.finders.lookup name <;> rfl

end Session

/-- More bytes were taken from a counter than it holds. -/
def SessionError.isOverdraft : SessionError → Bool
  | view error => error.isOverdraft
  | _ => false

end PackedGraph
