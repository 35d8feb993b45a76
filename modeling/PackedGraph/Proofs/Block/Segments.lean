import Mathlib
import PackedGraph.Proofs.Block.Placement

/-!
# The segments of a paged block

Records that are added one after another stand in segments of their own. A builder has a position at
which its last record ends, every record starts there or later, and so the segments come in the order
of their addresses and never overlap.
-/

namespace PackedGraph

variable {α : Type}

/-- Where a record stands: the number of its page, its position in that page, and its length. -/
structure Segment where
  page : Nat
  index : Nat
  length : Nat

namespace Segment

/-- A segment ends at a position of the block, or before it. -/
def EndsBy (segment : Segment) (page index : Nat) : Prop :=
  segment.page < page ∨ segment.page = page ∧ segment.index + segment.length ≤ index

def Disjoint (first second : Segment) : Prop :=
  first.page ≠ second.page ∨ first.index + first.length ≤ second.index ∨
    second.index + second.length ≤ first.index

theorem EndsBy.disjoint {first second : Segment} (h : first.EndsBy second.page second.index) :
    first.Disjoint second := by
  rcases h with hpage | ⟨_, hindex⟩
  · exact .inl hpage.ne
  · exact .inr (.inl hindex)

theorem Disjoint.symm {first second : Segment} (h : first.Disjoint second) :
    second.Disjoint first := by
  rcases h with hpage | hbefore | hafter
  · exact .inl hpage.symm
  · exact .inr (.inr hbefore)
  · exact .inr (.inl hafter)

theorem EndsBy.trans {first second : Segment} {page index : Nat}
    (h : first.EndsBy second.page second.index) (h' : second.EndsBy page index) :
    first.EndsBy page index := by
  unfold EndsBy at *
  omega

end Segment

namespace PageShift

/-- The segment of a record with a given address. -/
def segment (shift : PageShift) (address : Nat) (record : Array α) : Segment :=
  ⟨address / shift.pageSize, address % shift.pageSize, record.size⟩

/-- A page number and a position in the page, put together in a 64-bit word. -/
def word (shift : PageShift) (page index : Nat) : UInt64 :=
  UInt64.ofNat page <<< UInt64.ofNat shift.val ||| UInt64.ofNat index

variable (shift : PageShift)

theorem pageSize_eq : shift.pageSize = 2 ^ shift.val := Nat.one_shiftLeft _

theorem address_div {page index : Nat} (h : index < shift.pageSize) :
    (page * shift.pageSize + index) / shift.pageSize = page := by
  rw [Nat.mul_comm, Nat.mul_add_div shift.pageSize_pos, Nat.div_eq_of_lt h, Nat.add_zero]

theorem address_mod {page index : Nat} (h : index < shift.pageSize) :
    (page * shift.pageSize + index) % shift.pageSize = index := by
  rw [Nat.mul_comm, Nat.mul_add_mod, Nat.mod_eq_of_lt h]

/-- Segments in a row have increasing addresses. -/
theorem lt_of_endsBy {first second : Nat} {record : Array α} (hne : record ≠ #[])
    (h : (shift.segment first record).EndsBy (second / shift.pageSize)
      (second % shift.pageSize)) : first < second := by
  have hpos : 0 < record.size := Array.size_pos_iff.mpr hne
  have hfirst := Nat.div_add_mod first shift.pageSize
  have hsecond := Nat.div_add_mod second shift.pageSize
  have hindex := Nat.mod_lt first shift.pageSize_pos
  rcases h with hpage | ⟨hpage, hends⟩
  · have hnext : shift.pageSize * (first / shift.pageSize + 1) ≤
        shift.pageSize * (second / shift.pageSize) := Nat.mul_le_mul_left _ hpage
    rw [Nat.mul_add, Nat.mul_one] at hnext
    omega
  · simp only [segment] at hpage hends
    rw [hpage] at hfirst
    omega

/-- As long as page numbers leave room for the positions, an address is the word of both. -/
theorem toNat_word {page index : Nat} (hpage : page < 2 ^ (64 - shift.val))
    (hindex : index < shift.pageSize) :
    (shift.word page index).toNat = page * shift.pageSize + index ∧
      page * shift.pageSize + index < 2 ^ 64 := by
  have hle := shift.le_max
  rw [pageSize_eq] at hindex ⊢
  have hsize : 2 ^ shift.val ≤ 2 ^ 30 := Nat.pow_le_pow_right (by omega) hle
  have hpages : 2 ^ (64 - shift.val) ≤ 2 ^ 64 := Nat.pow_le_pow_right (by omega) (by omega)
  have hroom : (page + 1) * 2 ^ shift.val ≤ 2 ^ 64 := by
    calc (page + 1) * 2 ^ shift.val ≤ 2 ^ (64 - shift.val) * 2 ^ shift.val :=
        Nat.mul_le_mul_right _ hpage
      _ = 2 ^ 64 := by rw [← Nat.pow_add, Nat.sub_add_cancel (by omega)]
  rw [Nat.add_mul, Nat.one_mul] at hroom
  refine ⟨?_, by omega⟩
  have hshift : (UInt64.ofNat shift.val).toNat % 64 = shift.val := by
    rw [UInt64.toNat_ofNat', Nat.mod_eq_of_lt (b := 2 ^ 64) (by omega), Nat.mod_eq_of_lt (by omega)]
  rw [word, UInt64.toNat_or, UInt64.toNat_shiftLeft, hshift, UInt64.toNat_ofNat',
    UInt64.toNat_ofNat', Nat.mod_eq_of_lt (a := page) (by omega),
    Nat.mod_eq_of_lt (a := index) (by omega), Nat.mod_eq_of_lt (by rw [Nat.shiftLeft_eq]; omega),
    ← Nat.shiftLeft_add_eq_or_of_lt hindex, Nat.shiftLeft_eq]

end PageShift

namespace Pages

theorem Extends.refl (block : Pages α) : block.Extends block :=
  ⟨rfl, fun _ page hpage ↦ ⟨page, hpage, List.prefix_rfl⟩⟩

theorem Extends.trans {longest longer block : Pages α} (h : longest.Extends longer)
    (h' : longer.Extends block) : longest.Extends block := by
  refine ⟨h.shift_eq.trans h'.shift_eq, fun i page hpage ↦ ?_⟩
  obtain ⟨grown, hgrown, hprefix⟩ := h'.prefixes i page hpage
  obtain ⟨full, hfull, hlonger⟩ := h.prefixes i grown hgrown
  exact ⟨full, hfull, hprefix.trans hlonger⟩

end Pages

namespace PagesBuilder

/-! ## What a builder has placed -/

/-- The records that a builder holds at their addresses, in the order in which they were added: each
ends before the next one starts, and the last one ends where the builder stands. No page is empty,
and a page that is too large is a single record. -/
structure Filled (builder : PagesBuilder α) (placed : List (Nat × Array α)) : Prop where
  valid : builder.Valid
  keeps : ∀ entry ∈ placed, builder.build.Keeps entry.1 entry.2.toList
  ordered : placed.Pairwise fun first second ↦
    (builder.shift.segment first.1 first.2).EndsBy (second.1 / builder.shift.pageSize)
      (second.1 % builder.shift.pageSize)
  ends : ∀ entry ∈ placed, (builder.shift.segment entry.1 entry.2).EndsBy builder.complete.size
    builder.current.size
  pages_ne_empty : ∀ (i : Nat) (page : Array α), builder.build.pages[i]? = some page → page ≠ #[]
  large : ∀ (i : Nat) (page : Array α), builder.build.pages[i]? = some page →
    builder.shift.pageSize < page.size → (i * builder.shift.pageSize, page) ∈ placed

variable {builder : PagesBuilder α}

/-- A new block has a single page with the reserved element. -/
theorem eq_of_getElem?_build_new [Element α] {shift : PageShift} {i : Nat} {page : Array α}
    (h : (new shift).build.pages[i]? = some page) : page = #[Element.blank] := by
  have hpages : (new shift : PagesBuilder α).build.pages = #[#[Element.blank]] := rfl
  rw [hpages] at h
  exact Array.mem_singleton.mp (Array.mem_of_getElem? h)

theorem filled_new [Element α] (shift : PageShift) : (new shift : PagesBuilder α).Filled [] where
  valid := valid_new shift
  keeps _ h := absurd h List.not_mem_nil
  ordered := .nil
  ends _ h := absurd h List.not_mem_nil
  pages_ne_empty i page hpage := by
    rw [eq_of_getElem?_build_new hpage]
    simp
  large i page hpage hlarge := by
    rw [eq_of_getElem?_build_new hpage] at hlarge
    exact absurd hlarge (Nat.not_lt.mpr shift.pageSize_pos)

theorem getElem?_build_of_complete {i : Nat} {page : Array α}
    (h : builder.complete[i]? = some page) : builder.build.pages[i]? = some page := by
  by_cases hempty : builder.current = #[]
  · rw [build_pages_of_current_eq hempty]
    exact h
  · have hi : i < builder.complete.size := (Array.getElem?_eq_some_iff.mp h).1
    rw [build_pages_of_current_ne hempty, Array.getElem?_push, if_neg hi.ne]
    exact h

/-- What ends where a builder stands ends before the page after it. -/
theorem endsBy_size_build {segment : Segment}
    (h : segment.EndsBy builder.complete.size builder.current.size) :
    segment.EndsBy builder.build.pages.size 0 := by
  by_cases hempty : builder.current = #[]
  · rw [build_pages_of_current_eq hempty]
    rw [hempty] at h
    exact h
  · rw [build_pages_of_current_ne hempty, Array.size_push]
    rcases h with hpage | ⟨hpage, _⟩
    · exact .inl (by omega)
    · exact .inl (by omega)

theorem endsBy_roomFor {segment : Segment} (record : Array α)
    (h : segment.EndsBy builder.complete.size builder.current.size) :
    segment.EndsBy (builder.roomFor record).complete.size
      (builder.roomFor record).current.size := by
  unfold roomFor
  split
  · rw [flush_current]
    exact endsBy_size_build h
  · exact h

/-- A record starts where the builder stands, or later. -/
theorem endsBy_address {segment : Segment} {record : Array α} (hne : record ≠ #[])
    (h : segment.EndsBy builder.complete.size builder.current.size) :
    segment.EndsBy ((builder.push record).2 / builder.shift.pageSize)
      ((builder.push record).2 % builder.shift.pageSize) := by
  by_cases hlarge : builder.shift.pageSize < record.size
  · rw [push_of_large hlarge, Nat.mul_div_cancel _ builder.shift.pageSize_pos, Nat.mul_mod_left]
    exact endsBy_size_build h
  · have hpos : 0 < record.size := Array.size_pos_iff.mpr hne
    have hroom := roomFor_size_le (not_lt.mp hlarge)
    rw [push_of_small (not_lt.mp hlarge)]
    simp only
    rw [builder.shift.address_div (by omega), builder.shift.address_mod (by omega)]
    exact endsBy_roomFor record h

/-- The builder stands where the last record ends. -/
theorem segment_push_endsBy {record : Array α} (hne : record ≠ #[]) :
    (builder.shift.segment (builder.push record).2 record).EndsBy
      (builder.push record).1.complete.size (builder.push record).1.current.size := by
  by_cases hlarge : builder.shift.pageSize < record.size
  · rw [push_of_large hlarge]
    left
    simp only [PageShift.segment, Array.size_push]
    rw [Nat.mul_div_cancel _ builder.shift.pageSize_pos]
    exact Nat.lt_succ_self _
  · have hpos : 0 < record.size := Array.size_pos_iff.mpr hne
    have hroom := roomFor_size_le (not_lt.mp hlarge)
    rw [push_of_small (not_lt.mp hlarge)]
    right
    simp only [PageShift.segment, Array.size_append]
    rw [builder.shift.address_div (by omega), builder.shift.address_mod (by omega)]
    exact ⟨rfl, le_rfl⟩

/-- A page of the block after a push was there before, or it is a large record, or the open page. -/
theorem getElem?_build_push {record : Array α} (hne : record ≠ #[]) {i : Nat} {page : Array α}
    (h : (builder.push record).1.build.pages[i]? = some page) :
    builder.build.pages[i]? = some page ∨
      builder.shift.pageSize < record.size ∧ page = record ∧
        (builder.push record).2 = i * builder.shift.pageSize ∨
      page ≠ #[] ∧ page.size ≤ builder.shift.pageSize := by
  rw [build_push_pages builder hne] at h
  by_cases hlarge : builder.shift.pageSize < record.size
  · rw [if_pos hlarge, Array.getElem?_push] at h
    split at h
    · rw [push_of_large hlarge, ‹i = _›]
      exact .inr (.inl ⟨hlarge, (Option.some.inj h).symm, rfl⟩)
    · exact .inl h
  · rw [if_neg hlarge, Array.getElem?_push] at h
    split at h
    · have hroom := roomFor_size_le (not_lt.mp hlarge)
      rw [← Option.some.inj h]
      refine .inr (.inr ⟨?_, ?_⟩)
      · simp [hne]
      · rw [Array.size_append]
        exact hroom
    · rw [← build_roomFor builder record]
      exact .inl (getElem?_build_of_complete h)

theorem Filled.push {placed : List (Nat × Array α)} (h : builder.Filled placed) {record : Array α}
    (hne : record ≠ #[]) :
    (builder.push record).1.Filled (placed ++ [((builder.push record).2, record)]) where
  valid := valid_push builder hne
  keeps entry hentry := by
    rcases List.mem_append.mp hentry with hold | hnew
    · exact (h.keeps entry hold).mono (extends_push builder hne)
    · rw [List.mem_singleton.mp hnew]
      exact keeps_push h.valid hne
  ordered := by
    rw [push_shift, List.pairwise_append]
    refine ⟨h.ordered, List.pairwise_singleton _ _, fun first hfirst second hsecond ↦ ?_⟩
    rw [List.mem_singleton.mp hsecond]
    exact endsBy_address hne (h.ends first hfirst)
  ends entry hentry := by
    rw [push_shift]
    rcases List.mem_append.mp hentry with hold | hnew
    · exact (endsBy_address hne (h.ends entry hold)).trans (segment_push_endsBy hne)
    · rw [List.mem_singleton.mp hnew]
      exact segment_push_endsBy hne
  pages_ne_empty i page hpage := by
    rcases getElem?_build_push hne hpage with hold | ⟨_, rfl, _⟩ | ⟨hfilled, _⟩
    · exact h.pages_ne_empty i page hold
    · exact hne
    · exact hfilled
  large i page hpage hlarge := by
    rw [push_shift] at hlarge ⊢
    rcases getElem?_build_push hne hpage with hold | ⟨_, rfl, haddress⟩ | ⟨_, hsmall⟩
    · exact List.mem_append_left _ (h.large i page hold hlarge)
    · rw [← haddress]
      exact List.mem_append_right _ (List.mem_singleton_self _)
    · omega

/-! ## Adding records one after another -/

theorem pushAll_cons (builder : PagesBuilder α) (record : Array α) (records : List (Array α)) :
    builder.pushAll (record :: records) =
      (((builder.push record).1.pushAll records).1,
        (builder.push record).2 :: ((builder.push record).1.pushAll records).2) := rfl

theorem length_pushAll (builder : PagesBuilder α) (records : List (Array α)) :
    (builder.pushAll records).2.length = records.length := by
  induction records generalizing builder with
  | nil => rfl
  | cons record records ih => rw [pushAll_cons, List.length_cons, List.length_cons, ih]

theorem pushAll_append (builder : PagesBuilder α) (records later : List (Array α)) :
    builder.pushAll (records ++ later) =
      (((builder.pushAll records).1.pushAll later).1,
        (builder.pushAll records).2 ++ ((builder.pushAll records).1.pushAll later).2) := by
  induction records generalizing builder with
  | nil => rfl
  | cons record records ih =>
    rw [List.cons_append, pushAll_cons, ih, pushAll_cons]
    rfl

theorem pushAll_shift (builder : PagesBuilder α) (records : List (Array α)) :
    (builder.pushAll records).1.shift = builder.shift := by
  induction records generalizing builder with
  | nil => rfl
  | cons record records ih => rw [pushAll_cons, ih, push_shift]

theorem extends_pushAll (builder : PagesBuilder α) {records : List (Array α)}
    (hne : ∀ record ∈ records, record ≠ #[]) :
    (builder.pushAll records).1.build.Extends builder.build := by
  induction records generalizing builder with
  | nil => exact .refl _
  | cons record records ih =>
    have hrest := ih (builder.push record).1 fun other h ↦ hne other (List.mem_cons_of_mem _ h)
    exact hrest.trans (extends_push builder (hne record List.mem_cons_self))

theorem Filled.pushAll {placed : List (Nat × Array α)} (h : builder.Filled placed)
    {records : List (Array α)} (hne : ∀ record ∈ records, record ≠ #[]) :
    (builder.pushAll records).1.Filled (placed ++ (builder.pushAll records).2.zip records) := by
  induction records generalizing builder placed with
  | nil =>
    rw [List.zip_nil_right, List.append_nil]
    exact h
  | cons record records ih =>
    have hpushed := h.push (hne record List.mem_cons_self)
    have hrest := ih hpushed fun other hother ↦ hne other (List.mem_cons_of_mem _ hother)
    rw [pushAll_cons, List.zip_cons_cons, List.append_cons]
    exact hrest

end PagesBuilder

/-! ## Blocks -/

/-- Records stand in a block at their addresses: each can be located, no two of them overlap, none
covers the first element of the first page, and a page that is too large belongs to a single one. -/
structure Pages.Places (block : Pages α) (records : List (Array α)) (addresses : List Nat) :
    Prop where
  length_eq : addresses.length = records.length
  ne_zero : ∀ address ∈ addresses, address ≠ 0
  increasing : addresses.Pairwise (· < ·)
  located : ∀ address record, (address, record) ∈ addresses.zip records →
    ∃ page index elements, block.locate address = .ok (page, index) ∧
      (block.shift.word page index).toNat = address ∧
      block.shift.segment address record = ⟨page, index, record.size⟩ ∧
      block.pages[page]? = some elements ∧ HoldsAt elements index record.toList
  disjoint : (List.zipWith block.shift.segment addresses records).Pairwise Segment.Disjoint
  unreserved : ∀ segment ∈ List.zipWith block.shift.segment addresses records,
    segment.page = 0 → 0 < segment.index
  large : ∀ (i : Nat) (page : Array α), block.pages[i]? = some page →
    block.shift.pageSize < page.size →
    ∃ address, (address, page) ∈ addresses.zip records ∧
      block.shift.segment address page = ⟨i, 0, page.size⟩ ∧
      ∀ other record, (other, record) ∈ addresses.zip records →
        (block.shift.segment other record).page = i → other = address
  ne_empty : ∀ (i : Nat) (page : Array α), block.pages[i]? = some page → page ≠ #[]

namespace PagesBuilder

section Places

variable {builder : PagesBuilder α} {records : List (Array α)} {addresses : List Nat}

/-- The page and the position of a record put together are its address. -/
theorem Filled.located (h : builder.Filled (addresses.zip records))
    (hfit : builder.build.pages.size ≤ 2 ^ (64 - builder.shift.val)) {address : Nat}
    {record : Array α} (hentry : (address, record) ∈ addresses.zip records) (hne : record ≠ #[]) :
    ∃ page index elements, builder.build.locate address = .ok (page, index) ∧
      (builder.shift.word page index).toNat = address ∧
      builder.shift.segment address record = ⟨page, index, record.size⟩ ∧
      builder.build.pages[page]? = some elements ∧ HoldsAt elements index record.toList := by
  have hkeeps : builder.build.Keeps address record.toList := h.keeps (address, record) hentry
  have hlocate := Pages.locate_of_keeps hkeeps (by simpa using hne)
  obtain ⟨_, elements, hpage, hholds⟩ := hkeeps
  rw [builder.build_shift] at hlocate hpage hholds
  have hsize := (Array.getElem?_eq_some_iff.mp hpage).1
  have hword := builder.shift.toNat_word (hsize.trans_le hfit)
    (Nat.mod_lt address builder.shift.pageSize_pos)
  rw [Nat.mul_comm, Nat.div_add_mod] at hword
  exact ⟨_, _, elements, hlocate, hword.1, rfl, hpage, hholds⟩

theorem Filled.increasing (h : builder.Filled (addresses.zip records))
    (hlength : addresses.length = records.length) (hne : ∀ record ∈ records, record ≠ #[]) :
    addresses.Pairwise (· < ·) := by
  have hpairs : (addresses.zip records).Pairwise fun first second ↦ first.1 < second.1 := by
    refine List.Pairwise.imp_of_mem (fun {first _} hfirst _ hends ↦ ?_) h.ordered
    exact builder.shift.lt_of_endsBy (hne first.2 (List.of_mem_zip hfirst).2) hends
  rw [← List.map_fst_zip hlength.le, List.pairwise_map]
  exact hpairs

/-- Where the segments of records stand, in the order in which the records were added. -/
theorem Filled.disjoint (h : builder.Filled (addresses.zip records)) :
    (addresses.zip records).Pairwise fun first second ↦
      (builder.shift.segment first.1 first.2).Disjoint
        (builder.shift.segment second.1 second.2) :=
  h.ordered.imp Segment.EndsBy.disjoint

/-- A page that is too large has no room for a second record. -/
theorem Filled.large_alone (h : builder.Filled (addresses.zip records))
    (hne : ∀ record ∈ records, record ≠ #[]) {i : Nat} {page : Array α}
    (hpage : builder.build.pages[i]? = some page) (hlarge : builder.shift.pageSize < page.size)
    {other : Nat} {record : Array α} (hother : (other, record) ∈ addresses.zip records)
    (hsame : (builder.shift.segment other record).page = i) :
    other = i * builder.shift.pageSize := by
  have hentry := h.large i page hpage hlarge
  -- The large record covers every position that an address in its page can have.
  have hsymm : Std.Symm fun first second : Nat × Array α ↦
      (builder.shift.segment first.1 first.2).Disjoint
        (builder.shift.segment second.1 second.2) := ⟨fun _ _ ↦ Segment.Disjoint.symm⟩
  by_contra hdifferent
  have hdisjoint := h.disjoint.forall hother hentry fun heq ↦ hdifferent (congrArg Prod.fst heq)
  have hpos : 0 < record.size := Array.size_pos_iff.mpr (hne record (List.of_mem_zip hother).2)
  have hindex := Nat.mod_lt other builder.shift.pageSize_pos
  simp only [PageShift.segment] at hsame
  simp only [Segment.Disjoint, PageShift.segment, Nat.mul_mod_left,
    Nat.mul_div_cancel i builder.shift.pageSize_pos] at hdisjoint
  omega

theorem Filled.places (h : builder.Filled (addresses.zip records))
    (hlength : addresses.length = records.length) (hne : ∀ record ∈ records, record ≠ #[])
    (hfit : builder.build.pages.size ≤ 2 ^ (64 - builder.shift.val)) :
    builder.build.Places records addresses where
  length_eq := hlength
  ne_zero address haddress := by
    rw [← List.map_fst_zip hlength.le] at haddress
    obtain ⟨entry, hentry, rfl⟩ := List.mem_map.mp haddress
    exact (h.keeps entry hentry).1
  increasing := h.increasing hlength hne
  located address record hentry :=
    h.located hfit hentry (hne record (List.of_mem_zip hentry).2)
  disjoint := by
    rw [← List.map_uncurry_zip_eq_zipWith, List.pairwise_map]
    exact h.disjoint
  unreserved segment hsegment hzero := by
    rw [← List.map_uncurry_zip_eq_zipWith] at hsegment
    obtain ⟨entry, hentry, rfl⟩ := List.mem_map.mp hsegment
    have haddress : entry.1 ≠ 0 := (h.keeps entry hentry).1
    have hdiv := Nat.div_add_mod entry.1 builder.shift.pageSize
    have hpage : entry.1 / builder.shift.pageSize = 0 := hzero
    rw [hpage, Nat.mul_zero, Nat.zero_add] at hdiv
    exact Nat.pos_of_ne_zero fun hindex ↦ haddress (hdiv.symm.trans hindex)
  large i page hpage hlarge := by
    refine ⟨i * builder.shift.pageSize, h.large i page hpage hlarge, ?_,
      fun other record hother hsame ↦ h.large_alone hne hpage hlarge hother hsame⟩
    rw [PageShift.segment, builder.build_shift, Nat.mul_div_cancel i builder.shift.pageSize_pos,
      Nat.mul_mod_left]
  ne_empty := h.pages_ne_empty

end Places

/-- Records that are added to a new block get increasing addresses, at which they stand in segments
that do not overlap. Whatever is added later, they stay where they are. -/
theorem records_keep_their_places [Element α] (shift : PageShift) (records : List (Array α))
    (hne : ∀ record ∈ records, record ≠ #[])
    (hfit : ((new shift).pushAll records).1.build.pages.size ≤ 2 ^ (64 - shift.val)) :
    ((new shift).pushAll records).1.build.Places records ((new shift).pushAll records).2 ∧
      ∀ later : List (Array α), (∀ record ∈ later, record ≠ #[]) →
        ((new shift).pushAll records).2 <+: ((new shift).pushAll (records ++ later)).2 ∧
        ∀ address record, (address, record) ∈ ((new shift).pushAll records).2.zip records →
          ((new shift).pushAll (records ++ later)).1.build.locate address =
            ((new shift).pushAll records).1.build.locate address ∧
          ((new shift).pushAll (records ++ later)).1.build.Keeps address record.toList := by
  have hfilled := (filled_new shift).pushAll hne
  rw [List.nil_append] at hfilled
  have hshift : ((new shift).pushAll records).1.shift = shift := pushAll_shift _ records
  refine ⟨hfilled.places (length_pushAll _ records) hne (by rwa [hshift]), fun later hlater ↦ ?_⟩
  rw [pushAll_append]
  refine ⟨List.prefix_append _ _, fun address record hentry ↦ ?_⟩
  have hnonempty : record.toList ≠ [] := by simpa using hne record (List.of_mem_zip hentry).2
  have hextends := extends_pushAll ((new shift).pushAll records).1 hlater
  have hkeeps := hfilled.keeps (address, record) hentry
  have hkept := hkeeps.mono hextends
  refine ⟨?_, hkept⟩
  rw [Pages.locate_of_keeps hkept hnonempty, Pages.locate_of_keeps hkeeps hnonempty,
    hextends.shift_eq]

/-- In pages of four elements, the second of four records just fits in the first page, and the third
one needs a larger page of its own. -/
theorem four_records_keep_their_places :
    (∀ record ∈ ([#[1, 2], #[3], #[4, 5, 6, 7, 8], #[9]] : List (Array UInt8)), record ≠ #[]) ∧
      ((new ⟨2, by decide, by decide⟩ : PagesBuilder UInt8).pushAll
        [#[1, 2], #[3], #[4, 5, 6, 7, 8], #[9]]).1.build.pages.size ≤ 2 ^ (64 - 2) ∧
      ((new ⟨2, by decide, by decide⟩ : PagesBuilder UInt8).pushAll
        [#[1, 2], #[3], #[4, 5, 6, 7, 8], #[9]]).2 = [1, 3, 4, 8] ∧
      ((new ⟨2, by decide, by decide⟩ : PagesBuilder UInt8).pushAll
        [#[1, 2], #[3], #[4, 5, 6, 7, 8], #[9]]).1.build.Places
          [#[1, 2], #[3], #[4, 5, 6, 7, 8], #[9]] [1, 3, 4, 8] := by
  have hne : ∀ record ∈ ([#[1, 2], #[3], #[4, 5, 6, 7, 8], #[9]] : List (Array UInt8)),
      record ≠ #[] := by decide
  have hfit : ((new ⟨2, by decide, by decide⟩ : PagesBuilder UInt8).pushAll
      [#[1, 2], #[3], #[4, 5, 6, 7, 8], #[9]]).1.build.pages.size ≤ 2 ^ (64 - 2) := by decide
  have haddresses : ((new ⟨2, by decide, by decide⟩ : PagesBuilder UInt8).pushAll
      [#[1, 2], #[3], #[4, 5, 6, 7, 8], #[9]]).2 = [1, 3, 4, 8] := by decide
  have hplaces := (records_keep_their_places ⟨2, by decide, by decide⟩ _ hne hfit).1
  rw [haddresses] at hplaces
  exact ⟨hne, hfit, haddresses, hplaces⟩

end PagesBuilder

end PackedGraph
