import Mathlib

/-!
# Running calls that may fail

A call reads and changes a state, and may fail. These are the equations for running its parts one
after another, and what is known of the parts of a computation that has succeeded.
-/

namespace PackedGraph

variable {ε σ α β : Type}

theorem run_bind (call : ExceptT ε (StateM σ) α) (next : α → ExceptT ε (StateM σ) β) (state : σ) :
    (call >>= next).run.run state =
      match call.run.run state with
      | (.ok a, after) => (next a).run.run after
      | (.error error, after) => (.error error, after) := by
  rw [ExceptT.run_bind, StateT.run_bind]
  obtain ⟨outcome, after⟩ := call.run.run state
  cases outcome <;> rfl

theorem run_map (f : α → β) (call : ExceptT ε (StateM σ) α) (state : σ) :
    (f <$> call).run.run state = ((call.run.run state).1.map f, (call.run.run state).2) := by
  rw [map_eq_pure_bind, run_bind]
  obtain ⟨outcome, after⟩ := call.run.run state
  cases outcome <;> rfl

theorem run_pure (a : α) (state : σ) :
    (pure a : ExceptT ε (StateM σ) α).run.run state = (.ok a, state) := rfl

theorem run_get (state : σ) :
    (get : ExceptT ε (StateM σ) σ).run.run state = (.ok state, state) := rfl

theorem run_modify (f : σ → σ) (state : σ) :
    (modify f : ExceptT ε (StateM σ) Unit).run.run state = (.ok (), f state) := rfl

theorem run_lift (call : StateM σ α) (state : σ) :
    (liftM call : ExceptT ε (StateM σ) α).run.run state =
      (.ok (call.run state).1, (call.run state).2) := rfl

theorem run_ofExcept (outcome : Except ε α) (state : σ) :
    (MonadExcept.ofExcept outcome : ExceptT ε (StateM σ) α).run.run state = (outcome, state) := by
  cases outcome <;> rfl

/-! ## Success -/

section Except

variable {ε' : Type}

theorem ok_bind (a : α) (next : α → Except ε β) : (Except.ok a >>= next) = next a := rfl

theorem exists_of_bind_eq_ok {first : Except ε α} {next : α → Except ε β} {b : β}
    (h : first >>= next = .ok b) : ∃ a, first = .ok a ∧ next a = .ok b := by
  cases first with
  | error error => exact nomatch h
  | ok a => exact ⟨a, rfl, h⟩

theorem bind_congr_of_ok {first : Except ε α} {next other : α → Except ε β}
    (h : ∀ a, first = .ok a → next a = other a) : first >>= next = first >>= other := by
  cases first with
  | error error => rfl
  | ok a => exact h a rfl

theorem exists_of_map_eq_ok {outcome : Except ε α} {f : α → β} {b : β}
    (h : outcome.map f = .ok b) : ∃ a, outcome = .ok a ∧ f a = b := by
  cases outcome with
  | error error => exact nomatch h
  | ok a => exact ⟨a, rfl, Except.ok.inj h⟩

theorem eq_ok_of_mapError_eq_ok {outcome : Except ε α} {f : ε → ε'} {a : α}
    (h : outcome.mapError f = .ok a) : outcome = .ok a := by
  cases outcome with
  | error error => exact nomatch h
  | ok a => exact congrArg Except.ok (Except.ok.inj h)

theorem forall₂_of_mapM_eq_ok {f : α → Except ε β} {l : List α} {results : List β}
    (h : l.mapM f = .ok results) : List.Forall₂ (fun a b ↦ f a = .ok b) l results := by
  induction l generalizing results with
  | nil =>
    obtain rfl := Except.ok.inj h
    exact .nil
  | cons a l ih =>
    rw [List.mapM_cons] at h
    obtain ⟨b, hb, hrest⟩ := exists_of_bind_eq_ok h
    obtain ⟨others, hothers, hresults⟩ := exists_of_bind_eq_ok hrest
    obtain rfl := Except.ok.inj hresults
    exact .cons hb (ih hothers)

theorem length_eq_of_mapM_eq_ok {f : α → Except ε β} {l : List α} {results : List β}
    (h : l.mapM f = .ok results) : results.length = l.length :=
  (forall₂_of_mapM_eq_ok h).length_eq.symm

theorem exists_of_mapM_eq_ok {f : α → Except ε β} {l : List α} {results : List β}
    (h : l.mapM f = .ok results) {a : α} (ha : a ∈ l) : ∃ b, f a = .ok b := by
  replace h := forall₂_of_mapM_eq_ok h
  induction h with
  | nil => exact absurd ha List.not_mem_nil
  | cons hfirst _ ih =>
    rcases List.mem_cons.mp ha with rfl | hrest
    · exact ⟨_, hfirst⟩
    · exact ih hrest

/-- A function that does not fail on the elements of a list can be mapped over it. -/
theorem mapM_eq_ok {f : α → Except ε β} {g : α → β} {l : List α}
    (h : ∀ a ∈ l, f a = .ok (g a)) : l.mapM f = .ok (l.map g) := by
  induction l with
  | nil => rfl
  | cons a l ih =>
    rw [List.mapM_cons, h a List.mem_cons_self, ih fun b hb ↦ h b (List.mem_cons_of_mem _ hb)]
    rfl

theorem exists_mapM_eq_ok {f : α → Except ε β} {r : α → β → Prop} {l : List α}
    (h : ∀ a ∈ l, ∃ b, f a = .ok b ∧ r a b) : ∃ bs, l.mapM f = .ok bs ∧ List.Forall₂ r l bs := by
  induction l with
  | nil => exact ⟨[], rfl, .nil⟩
  | cons a l ih =>
    obtain ⟨b, hb, hr⟩ := h a List.mem_cons_self
    obtain ⟨bs, hbs, hrs⟩ := ih fun other hother ↦ h other (List.mem_cons_of_mem _ hother)
    refine ⟨b :: bs, ?_, .cons hr hrs⟩
    rw [List.mapM_cons, hb, hbs]
    rfl

/-- What is true at the start of a fold, and is kept by each of its steps, is true at its end. None
of the steps fails. -/
theorem exists_foldlM_eq_ok {f : β → α → Except ε β} {motive : List α → β → Prop} {l : List α}
    {start : β} (hstart : motive [] start)
    (hstep : ∀ done a rest b, l = done ++ a :: rest → motive done b →
      ∃ next, f b a = .ok next ∧ motive (done ++ [a]) next) :
    ∃ final, l.foldlM f start = .ok final ∧ motive l final := by
  have hrest (done rest : List α) (b : β) (hl : l = done ++ rest) (hb : motive done b) :
      ∃ final, rest.foldlM f b = .ok final ∧ motive l final := by
    induction rest generalizing done b with
    | nil =>
      rw [List.append_nil] at hl
      exact ⟨b, rfl, hl ▸ hb⟩
    | cons a rest ih =>
      obtain ⟨next, hnext, hmotive⟩ := hstep done a rest b hl hb
      obtain ⟨final, hfinal, hend⟩ := ih (done ++ [a]) next (by simp [hl]) hmotive
      refine ⟨final, ?_, hend⟩
      rw [List.foldlM_cons, hnext]
      exact hfinal
  exact hrest [] l start rfl hstart

/-- What each step of a fold keeps is true at its end, if none of them fails. -/
theorem of_foldlM_eq_ok {f : β → α → Except ε β} {p : β → Prop} {l : List α} {start final : β}
    (hstart : p start) (hstep : ∀ b a next, p b → f b a = .ok next → p next)
    (h : l.foldlM f start = .ok final) : p final := by
  induction l generalizing start with
  | nil =>
    obtain rfl := Except.ok.inj h
    exact hstart
  | cons a l ih =>
    rw [List.foldlM_cons] at h
    obtain ⟨next, hnext, hrest⟩ := exists_of_bind_eq_ok h
    exact ih (hstep start a next hstart hnext) hrest

end Except

end PackedGraph
