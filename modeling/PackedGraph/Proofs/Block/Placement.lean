import PackedGraph.Block.Pages
import PackedGraph.Proofs.Block.Codec

/-!
# Records in paged blocks

A record that is added to a block under construction can be located by its address, and stays where
it is while further records are added: complete pages never change, and the open one only grows.
-/

namespace PackedGraph

variable {α : Type}

namespace Pages

/-- A block keeps a record at an address. -/
def Keeps (block : Pages α) (address : Nat) (record : List α) : Prop :=
  address ≠ 0 ∧ ∃ page, block.pages[address / block.shift.pageSize]? = some page ∧
    HoldsAt page (address % block.shift.pageSize) record

/-- Every page of a block is the beginning of a page of another one. -/
structure Extends (longer block : Pages α) : Prop where
  shift_eq : longer.shift = block.shift
  prefixes : ∀ (i : Nat) (page : Array α), block.pages[i]? = some page →
    ∃ grown : Array α, longer.pages[i]? = some grown ∧ page.toList <+: grown.toList

theorem Keeps.mono {longer block : Pages α} {address : Nat} {record : List α}
    (hext : longer.Extends block) (h : block.Keeps address record) :
    longer.Keeps address record := by
  obtain ⟨hne, page, hpage, hholds⟩ := h
  obtain ⟨grown, hgrown, hprefix⟩ := hext.prefixes _ page hpage
  rw [← hext.shift_eq] at hgrown hholds
  exact ⟨hne, grown, hgrown, hholds.mono hprefix⟩

theorem locate_of_keeps {block : Pages α} {address : Nat} {record : List α}
    (h : block.Keeps address record) (hne : record ≠ []) :
    block.locate address =
      .ok (address / block.shift.pageSize, address % block.shift.pageSize) := by
  obtain ⟨haddress, page, hpage, hholds⟩ := h
  simp only [locate, hpage]
  rw [if_pos ⟨haddress, hholds.lt_size hne⟩]

end Pages

namespace PagesBuilder

/-- The open page is no larger than a page, and the reserved element stands in the first one. -/
structure Valid (builder : PagesBuilder α) : Prop where
  current_le : builder.current.size ≤ builder.shift.pageSize
  started : builder.complete.size = 0 → 0 < builder.current.size

theorem valid_new [Element α] (shift : PageShift) : (new shift : PagesBuilder α).Valid :=
  ⟨shift.pageSize_pos, fun _ ↦ Nat.one_pos⟩

theorem flush_current (builder : PagesBuilder α) : builder.flush.current = #[] := by
  unfold flush
  split
  · exact Array.isEmpty_iff.mp ‹_›
  · rfl

theorem flush_shift (builder : PagesBuilder α) : builder.flush.shift = builder.shift := by
  unfold flush
  split <;> rfl

theorem flush_of_current_eq {builder : PagesBuilder α} (h : builder.current = #[]) :
    builder.flush = builder := by
  rw [flush, if_pos (by rw [h]; rfl)]

theorem build_flush (builder : PagesBuilder α) : builder.flush.build = builder.build := by
  rw [build, flush_of_current_eq (flush_current builder), flush_shift]
  rfl

theorem build_shift (builder : PagesBuilder α) : builder.build.shift = builder.shift := rfl

theorem build_pages_of_current_eq {builder : PagesBuilder α} (h : builder.current = #[]) :
    builder.build.pages = builder.complete := by
  rw [build, flush_of_current_eq h]

theorem build_pages_of_current_ne {builder : PagesBuilder α} (h : builder.current ≠ #[]) :
    builder.build.pages = builder.complete.push builder.current := by
  have hempty : builder.current.isEmpty = false := by simpa using h
  simp [build, flush, hempty]

theorem build_pages_pos {builder : PagesBuilder α} (hvalid : builder.Valid) :
    0 < builder.build.pages.size := by
  by_cases h : builder.current = #[]
  · have hstarted := hvalid.started
    rw [build_pages_of_current_eq h]
    rw [h] at hstarted
    exact Nat.pos_of_ne_zero fun hsize ↦ Nat.lt_irrefl 0 (hstarted hsize)
  · rw [build_pages_of_current_ne h, Array.size_push]
    exact Nat.succ_pos _

/-- The builder to whose open page a record is added. -/
def roomFor (builder : PagesBuilder α) (record : Array α) : PagesBuilder α :=
  if builder.shift.pageSize < builder.current.size + record.size then builder.flush else builder

theorem roomFor_shift (builder : PagesBuilder α) (record : Array α) :
    (builder.roomFor record).shift = builder.shift := by
  unfold roomFor
  split
  · exact flush_shift builder
  · rfl

theorem build_roomFor (builder : PagesBuilder α) (record : Array α) :
    (builder.roomFor record).build = builder.build := by
  unfold roomFor
  split
  · exact build_flush builder
  · rfl

theorem roomFor_size_le {builder : PagesBuilder α} {record : Array α}
    (hsmall : record.size ≤ builder.shift.pageSize) :
    (builder.roomFor record).current.size + record.size ≤ builder.shift.pageSize := by
  unfold roomFor
  split
  · simpa [flush_current] using hsmall
  · omega

theorem started_roomFor {builder : PagesBuilder α} (hvalid : builder.Valid) (record : Array α) :
    0 < (builder.roomFor record).complete.size ∨ 0 < (builder.roomFor record).current.size := by
  unfold roomFor
  split
  · exact .inl (build_pages_pos hvalid)
  · have hstarted := hvalid.started
    omega

theorem push_of_large {builder : PagesBuilder α} {record : Array α}
    (h : builder.shift.pageSize < record.size) :
    builder.push record =
      (⟨builder.shift, builder.build.pages.push record, #[]⟩,
        builder.build.pages.size * builder.shift.pageSize) := by
  rw [push, if_pos h]
  simp only [flush_shift, flush_current]
  rfl

theorem push_of_small {builder : PagesBuilder α} {record : Array α}
    (h : record.size ≤ builder.shift.pageSize) :
    builder.push record =
      ({ builder.roomFor record with current := (builder.roomFor record).current ++ record },
        (builder.roomFor record).complete.size * builder.shift.pageSize +
          (builder.roomFor record).current.size) := by
  rw [push, if_neg (by omega)]
  rfl

theorem push_shift (builder : PagesBuilder α) (record : Array α) :
    (builder.push record).1.shift = builder.shift := by
  by_cases h : builder.shift.pageSize < record.size
  · rw [push_of_large h]
  · rw [push_of_small (by omega)]
    exact roomFor_shift builder record

theorem valid_push (builder : PagesBuilder α) {record : Array α} (hne : record ≠ #[]) :
    (builder.push record).1.Valid := by
  have hpos : 0 < record.size := Array.size_pos_iff.mpr hne
  by_cases h : builder.shift.pageSize < record.size
  · rw [push_of_large h]
    refine ⟨Nat.zero_le _, fun hsize ↦ ?_⟩
    simp at hsize
  · rw [push_of_small (by omega)]
    refine ⟨?_, fun _ ↦ ?_⟩
    · have hroom := roomFor_size_le (not_lt.mp h)
      simpa [roomFor_shift] using hroom
    · simp only [Array.size_append]
      omega

/-- The block grows by a page of its own, or in its last page. -/
theorem build_push_pages (builder : PagesBuilder α) {record : Array α} (hne : record ≠ #[]) :
    (builder.push record).1.build.pages =
      if builder.shift.pageSize < record.size then builder.build.pages.push record
      else (builder.roomFor record).complete.push ((builder.roomFor record).current ++ record) := by
  by_cases h : builder.shift.pageSize < record.size
  · rw [if_pos h, push_of_large h, build_pages_of_current_eq rfl]
  · rw [if_neg h, push_of_small (by omega), build_pages_of_current_ne]
    simp [hne]

theorem extends_push (builder : PagesBuilder α) {record : Array α} (hne : record ≠ #[]) :
    (builder.push record).1.build.Extends builder.build := by
  refine ⟨push_shift builder record, fun i page hpage ↦ ?_⟩
  rw [build_push_pages builder hne]
  have hi : i < builder.build.pages.size := (Array.getElem?_eq_some_iff.mp hpage).1
  by_cases h : builder.shift.pageSize < record.size
  · rw [if_pos h]
    refine ⟨page, ?_, List.prefix_rfl⟩
    rw [Array.getElem?_push, if_neg (by omega), hpage]
  · rw [if_neg h]
    rw [← build_roomFor builder record] at hpage hi
    by_cases hempty : (builder.roomFor record).current = #[]
    · rw [build_pages_of_current_eq hempty] at hpage hi
      refine ⟨page, ?_, List.prefix_rfl⟩
      rw [Array.getElem?_push, if_neg (by omega), hpage]
    · rw [build_pages_of_current_ne hempty] at hpage
      rw [Array.getElem?_push] at hpage ⊢
      split
      · refine ⟨_, rfl, ?_⟩
        rw [if_pos ‹_›, Option.some_inj] at hpage
        rw [← hpage, Array.toList_append]
        exact List.prefix_append _ _
      · rw [if_neg ‹_›] at hpage
        exact ⟨page, hpage, List.prefix_rfl⟩

/-- A nonempty record can be read at the address at which it was added. -/
theorem keeps_push {builder : PagesBuilder α} (hvalid : builder.Valid) {record : Array α}
    (hne : record ≠ #[]) :
    (builder.push record).1.build.Keeps (builder.push record).2 record.toList := by
  have hpos : 0 < record.size := Array.size_pos_iff.mpr hne
  have hpage : 0 < builder.shift.pageSize := builder.shift.pageSize_pos
  have hpages := build_push_pages builder hne
  rw [Pages.Keeps, build_shift, push_shift, hpages]
  by_cases h : builder.shift.pageSize < record.size
  · have hstarted := build_pages_pos hvalid
    rw [if_pos h, push_of_large h]
    refine ⟨(Nat.mul_pos hstarted hpage).ne', record, ?_, ?_⟩
    · rw [Nat.mul_div_cancel _ hpage]
      exact Array.getElem?_push_size
    · rw [Nat.mul_mod_left]
      exact List.prefix_rfl
  · have hroom := roomFor_size_le (not_lt.mp h)
    have hstarted := started_roomFor hvalid record
    have hindex : (builder.roomFor record).current.size < builder.shift.pageSize := by omega
    rw [if_neg h, push_of_small (by omega)]
    refine ⟨?_, (builder.roomFor record).current ++ record, ?_, ?_⟩
    · rcases hstarted with hcomplete | hcurrent
      · exact (Nat.add_pos_left (Nat.mul_pos hcomplete hpage) _).ne'
      · exact (Nat.add_pos_right _ hcurrent).ne'
    · rw [Nat.mul_comm, Nat.mul_add_div hpage, Nat.div_eq_of_lt hindex, Nat.add_zero]
      exact Array.getElem?_push_size
    · rw [Nat.mul_comm, Nat.mul_add_mod, Nat.mod_eq_of_lt hindex]
      exact HoldsAt.append_size _ _

end PagesBuilder

end PackedGraph
