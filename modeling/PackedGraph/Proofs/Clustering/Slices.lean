import Mathlib
import PackedGraph.Clustering.Slices

/-!
# Rows of arrays

An array whose size is a multiple of a positive dimension consists of rows of this length. The
slices of rows lie in the array, so that reading and writing them is no fault, and what is written
to a row changes no other one.
-/

namespace PackedGraph.Slices

variable {α β : Type} {values : Array α} {count dimension i c d : Nat}

/-- The elements of a row. -/
def row (values : Array α) (dimension i : Nat) : List α :=
  (values.extract (i * dimension) (i * dimension + dimension)).toList

theorem row_le (hi : i < count) : i * dimension + dimension ≤ count * dimension := by
  rw [← Nat.succ_mul]
  exact Nat.mul_le_mul_right dimension hi

theorem cell_lt (hi : i < count) (hd : d < dimension) : i * dimension + d < count * dimension :=
  (Nat.add_lt_add_left hd _).trans_le (row_le hi)

/-- The cells of a row are in no other one. -/
theorem cell_in_row_iff (hd : d < dimension) :
    (i * dimension ≤ c * dimension + d ∧ c * dimension + d < i * dimension + dimension) ↔
      c = i := by
  constructor
  · rintro ⟨hstart, hstop⟩
    rcases Nat.lt_trichotomy c i with hlt | heq | hlt
    · exact absurd ((cell_lt hlt hd).trans_le hstart) (lt_irrefl _)
    · exact heq
    · have hrow : i * dimension + dimension ≤ c * dimension := row_le hlt
      omega
  · rintro rfl
    omega

theorem cell_eq_iff {e : Nat} (hd : d < dimension) (he : e < dimension) :
    c * dimension + d = i * dimension + e ↔ c = i ∧ d = e := by
  constructor
  · intro heq
    have hrow : c = i := (cell_in_row_iff hd).mp (by omega)
    subst hrow
    exact ⟨rfl, Nat.add_left_cancel heq⟩
  · rintro ⟨rfl, rfl⟩
    rfl

theorem getElem?_row (hd : d < dimension) :
    (row values dimension i)[d]? = values[i * dimension + d]? := by
  rw [row, Array.getElem?_toList, Array.getElem?_extract]
  split_ifs with h
  · rfl
  · rw [Array.getElem?_eq_none]
    omega

theorem length_row (hsize : values.size = count * dimension) (hi : i < count) :
    (row values dimension i).length = dimension := by
  have hrow : i * dimension + dimension ≤ count * dimension := row_le hi
  rw [row, Array.length_toList, Array.size_extract]
  omega

theorem read_row (hsize : values.size = count * dimension) (hi : i < count) :
    read values (i * dimension) dimension = .ok (row values dimension i) :=
  if_pos (hsize ▸ row_le hi)

theorem chunks_eq (hdimension : 0 < dimension) (hsize : values.size = count * dimension) :
    chunks values dimension = .ok ((List.range count).map (row values dimension)) := by
  have hpieces : (count * dimension + dimension - 1) / dimension = count := by
    rw [Nat.add_sub_assoc hdimension, Nat.mul_comm, Nat.mul_add_div hdimension,
      Nat.div_eq_of_lt (Nat.sub_lt hdimension Nat.one_pos), Nat.add_zero]
  rw [chunks, if_neg hdimension.ne', hsize, hpieces]
  rfl

theorem quotient_eq (hdimension : 0 < dimension) :
    quotient (count * dimension) dimension = .ok count := by
  rw [quotient, if_neg hdimension.ne', Nat.mul_div_cancel count hdimension]

theorem size_of_flatMap {f : Nat → List α} (hvalues : values.toList = (List.range count).flatMap f)
    (hlength : ∀ j < count, (f j).length = dimension) : values.size = count * dimension := by
  have hrows : ∀ length ∈ (List.range count).map fun j ↦ (f j).length, length = dimension := by
    intro length hmem
    obtain ⟨j, hj, rfl⟩ := List.mem_map.mp hmem
    exact hlength j (List.mem_range.mp hj)
  rw [← Array.length_toList, hvalues, List.length_flatMap, List.sum_eq_card_nsmul _ _ hrows,
    List.length_map, List.length_range, smul_eq_mul]

/-- Lists of one length, one after another, are the rows of an array. -/
theorem row_eq_of_flatMap {f : Nat → List α} (hvalues : values.toList = (List.range count).flatMap f)
    (hlength : ∀ j < count, (f j).length = dimension) (hi : i < count) :
    row values dimension i = f i := by
  have hdrop (l : List Nat) (hl : ∀ j ∈ l, (f j).length = dimension) (i : Nat)
      (hi : i < l.length) : ((l.flatMap f).drop (i * dimension)).take dimension = f l[i] := by
    induction l generalizing i with
    | nil => exact nomatch hi
    | cons j l ih =>
      obtain ⟨hj, hl⟩ := List.forall_mem_cons.mp hl
      rw [List.flatMap_cons]
      cases i with
      | zero =>
        rw [Nat.zero_mul, List.drop_zero, List.take_left' hj]
        rfl
      | succ i =>
        rw [Nat.succ_mul, Nat.add_comm, ← List.drop_drop, List.drop_left' hj]
        exact ih hl i (Nat.lt_of_succ_lt_succ hi)
  have hrow := hdrop (List.range count) (fun j hj ↦ hlength j (List.mem_range.mp hj)) i
    (List.length_range.symm ▸ hi)
  rw [List.getElem_range, ← hvalues] at hrow
  rw [row, Array.toList_extract, List.extract_eq_take_drop, Nat.add_sub_cancel_left, hrow]

/-! ## Writing -/

theorem getElem?_foldl_modify (f : α → β → α) (others : List β) (start : Nat) (values : Array α)
    (j : Nat) :
    ((others.zipIdx start).foldl (fun values (other, i) ↦ values.modify i (f · other)) values)[j]? =
      if start ≤ j ∧ j < start + others.length then Option.map₂ f values[j]? others[j - start]?
      else values[j]? := by
  induction others generalizing start values with
  | nil =>
    have hnone : ¬ (start ≤ j ∧ j < start + ([] : List β).length) := by simp
    rw [if_neg hnone]
    rfl
  | cons other others ih =>
    rw [List.zipIdx_cons, List.foldl_cons, ih, Array.getElem?_modify, List.length_cons]
    -- The cell lies before the slice, or is its first one, or belongs to the rest of the list.
    rcases Nat.lt_trichotomy j start with hlt | rfl | hlt
    · rw [if_neg (by omega), if_neg (by omega), if_neg (by omega)]
    · rw [if_neg (by omega), if_pos rfl, if_pos (by omega), Nat.sub_self]
      cases values[j]? <;> rfl
    · obtain ⟨offset, rfl⟩ : ∃ offset, j = start + 1 + offset := ⟨j - (start + 1), by omega⟩
      have hcell : start + 1 + offset - start = offset + 1 := by omega
      rw [if_neg (by omega : ¬ start = start + 1 + offset), Nat.add_sub_cancel_left, hcell,
        List.getElem?_cons_succ]
      congr 1
      simp only [eq_iff_iff]
      omega

theorem size_foldl_modify (f : α → β → α) (others : List (β × Nat)) (values : Array α) :
    (others.foldl (fun values (other, i) ↦ values.modify i (f · other)) values).size =
      values.size := by
  induction others generalizing values with
  | nil => rfl
  | cons other others ih => rw [List.foldl_cons, ih, Array.size_modify]

/-- Combining a row with a list changes this row only. -/
theorem exists_combine_row (f : α → β → α) (hsize : values.size = count * dimension)
    (hi : i < count) {others : List β} (hlength : others.length = dimension) :
    ∃ after, combine f values (i * dimension) dimension others = .ok after ∧
      after.size = values.size ∧
      ∀ c d, d < dimension → after[c * dimension + d]? =
        if c = i then Option.map₂ f values[c * dimension + d]? others[d]?
        else values[c * dimension + d]? := by
  have hlist : others.take dimension = others := List.take_of_length_le hlength.le
  refine ⟨_, if_pos (hsize ▸ row_le hi), size_foldl_modify f _ values, fun c d hd ↦ ?_⟩
  rw [getElem?_foldl_modify, hlist, hlength]
  by_cases hrow : c = i
  · subst hrow
    rw [if_pos ((cell_in_row_iff hd).mpr rfl), if_pos rfl, Nat.add_sub_cancel_left]
  · rw [if_neg ((cell_in_row_iff hd).not.mpr hrow), if_neg hrow]

theorem exists_copy_row (hsize : values.size = count * dimension) (hi : i < count)
    {others : List α} (hlength : others.length = dimension) :
    ∃ after, copy values (i * dimension) dimension others = .ok after ∧
      after.size = values.size := by
  obtain ⟨after, hafter, hsame, _⟩ := exists_combine_row (fun _ other ↦ other) hsize hi hlength
  exact ⟨after, (if_pos hlength).trans hafter, hsame⟩

/-- Some cells of the rows of an array are replaced by new elements. -/
structure Patches (dimension : Nat) (new : Nat → Nat → α) (cells : Nat → Nat → Prop)
    (values after : Array α) : Prop where
  size_eq : after.size = values.size
  new_eq : ∀ c d, d < dimension → cells c d → after[c * dimension + d]? = some (new c d)
  old_eq : ∀ c d, d < dimension → ¬ cells c d →
    after[c * dimension + d]? = values[c * dimension + d]?

section Patches

variable {new : Nat → Nat → α} {cells others : Nat → Nat → Prop} {between after : Array α}

theorem Patches.none (values : Array α) (h : ∀ c d, ¬ cells c d) :
    Patches dimension new cells values values :=
  ⟨rfl, fun c d _ hcell ↦ absurd hcell (h c d), fun _ _ _ _ ↦ rfl⟩

theorem Patches.congr (h : Patches dimension new cells values after)
    (hcells : ∀ c d, d < dimension → (cells c d ↔ others c d)) :
    Patches dimension new others values after :=
  ⟨h.size_eq, fun c d hd hcell ↦ h.new_eq c d hd ((hcells c d hd).mpr hcell),
    fun c d hd hcell ↦ h.old_eq c d hd ((hcells c d hd).not.mpr hcell)⟩

theorem Patches.trans (h : Patches dimension new cells values between)
    (h' : Patches dimension new others between after) :
    Patches dimension new (fun c d ↦ cells c d ∨ others c d) values after := by
  refine ⟨h'.size_eq.trans h.size_eq, fun c d hd hcell ↦ ?_, fun c d hd hcell ↦ ?_⟩
  · by_cases hother : others c d
    · exact h'.new_eq c d hd hother
    · exact (h'.old_eq c d hd hother).trans (h.new_eq c d hd (hcell.resolve_right hother))
  · rw [not_or] at hcell
    exact (h'.old_eq c d hd hcell.2).trans (h.old_eq c d hd hcell.1)

theorem Patches.setIfInBounds (hd : d < dimension) (hcell : i * dimension + d < values.size) :
    Patches dimension new (fun c e ↦ c = i ∧ e = d) values
      (values.setIfInBounds (i * dimension + d) (new i d)) := by
  refine ⟨Array.size_setIfInBounds, fun c e _ hsame ↦ ?_, fun c e he hother ↦ ?_⟩
  · obtain ⟨rfl, rfl⟩ := hsame
    rw [Array.getElem?_setIfInBounds, if_pos rfl, if_pos hcell]
  · have hne : ¬ i * dimension + d = c * dimension + e := fun heq ↦
      hother ((cell_eq_iff he hd).mp heq.symm)
    rw [Array.getElem?_setIfInBounds, if_neg hne]

end Patches

theorem copy_all {others : Array α} (hsize : others.size = values.size) :
    copy values 0 values.size others.toList = .ok others := by
  have hlength : others.toList.length = values.size := Array.length_toList.trans hsize
  rw [copy, if_pos hlength, combine, if_pos (Nat.zero_add _).le,
    List.take_of_length_le hlength.le]
  congr 1
  apply Array.ext_getElem?
  intro j
  refine (getElem?_foldl_modify (fun _ other ↦ other) others.toList 0 values j).trans ?_
  rw [hlength, Nat.zero_add, Nat.sub_zero, Array.getElem?_toList]
  by_cases hj : j < values.size
  · rw [if_pos ⟨Nat.zero_le j, hj⟩, Array.getElem?_eq_getElem hj,
      Array.getElem?_eq_getElem (hsize ▸ hj)]
    rfl
  · have hout : ¬ (0 ≤ j ∧ j < values.size) := fun h ↦ hj h.2
    rw [if_neg hout, Array.getElem?_eq_none (Nat.le_of_not_lt hj),
      Array.getElem?_eq_none (hsize ▸ Nat.le_of_not_lt hj)]

end PackedGraph.Slices
