import Mathlib
import PackedGraph.Proofs.Block.Decoding
import PackedGraph.Proofs.Relation.Stored
import PackedGraph.Proofs.View.History

/-!
# Views on blocks of any origin

The constructors of a view check sizes, and that the lists without an address are those without
targets. The addresses may still point anywhere, and the bytes may be no codes. An enumeration finds
out before it starts whether the targets and all the values of a node have a place to be read from.
From then on every target comes with its own value, until there are no more or one cannot be decoded.
-/

namespace PackedGraph

/-! ## Values -/

/-- There is no place from which the values of a node can be read, so many there should be. -/
inductive ValueTable.Misplaces (table : ValueTable) (node degree : Nat) : Prop
  | missing (haddress : table.addresses[node]? = some 0) (hdegree : degree ≠ 0)
  | outside {address : Nat} (haddress : table.addresses[node]? = some address) (hne : address ≠ 0)
    (h : ¬ table.block.Contains address)
  | cutOff {address : Nat} {page : Array ValueBits}
    (haddress : table.addresses[node]? = some address) (hne : address ≠ 0)
    (hpage : table.block.pages[address / table.block.shift.pageSize]? = some page)
    (h : page.size < address % table.block.shift.pageSize + degree)

/-- The values of a node stand at its address, if there are any. -/
def ValueTable.KeepsAt (table : ValueTable) (node : Nat) (values : List ValueBits) : Prop :=
  values ≠ [] →
    ∃ address, table.addresses[node]? = some address ∧ table.block.Keeps address values

namespace ValueTable

variable {table : ValueTable} {node degree : Nat}

theorem moveTo_of_misplaces (cursor : ValueCursor) (h : table.Misplaces node degree) :
    ∃ error, table.moveTo cursor node degree = .error (.decode error) := by
  rw [moveTo]
  rcases h with ⟨haddress, hdegree⟩ | ⟨haddress, hne, houtside⟩ |
    @⟨address, page, haddress, hne, hpage, hsize⟩
  · simp only [haddress]
    rw [ValueCursor.moveTo, if_pos rfl, if_neg hdegree]
    exact ⟨_, rfl⟩
  · simp only [haddress]
    rw [ValueCursor.moveTo, if_neg hne, Pages.locate_of_not_contains houtside]
    exact ⟨_, rfl⟩
  · simp only [haddress]
    rw [ValueCursor.moveTo, if_neg hne]
    by_cases hinside : table.block.Contains address
    · rw [Pages.locate_of_contains hne hinside]
      simp only [bind, Except.bind, hpage, Option.map_some, Option.getD_some, if_pos hsize]
      exact ⟨_, rfl⟩
    · rw [Pages.locate_of_not_contains hinside]
      exact ⟨_, rfl⟩

theorem moveTo_of_not_misplaces (cursor : ValueCursor) (hnode : node < table.addresses.size)
    (h : ¬ table.Misplaces node degree) :
    ∃ moved values, table.moveTo cursor node degree = .ok moved ∧
      moved.Before table.block values ∧ values.length = degree ∧ table.KeepsAt node values := by
  obtain ⟨address, haddress⟩ : ∃ address, table.addresses[node]? = some address :=
    ⟨_, Array.getElem?_eq_getElem hnode⟩
  rw [moveTo, haddress]
  simp only
  by_cases hzero : address = 0
  · have hdegree : degree = 0 := by
      by_contra hdegree
      exact h (.missing (hzero ▸ haddress) hdegree)
    rw [ValueCursor.moveTo, if_pos hzero, if_pos hdegree]
    exact ⟨_, [], rfl, ⟨rfl, fun hne ↦ absurd rfl hne⟩, hdegree.symm, fun hne ↦ absurd rfl hne⟩
  · have hinside : table.block.Contains address := by
      by_contra houtside
      exact h (.outside haddress hzero houtside)
    have hlocate := Pages.locate_of_contains hzero hinside
    obtain ⟨page, hpage, hindex⟩ := hinside
    have hroom : ¬ page.size < address % table.block.shift.pageSize + degree :=
      fun hsize ↦ h (.cutOff haddress hzero hpage hsize)
    obtain ⟨values, hvalues⟩ : ∃ values,
        values = (page.toList.drop (address % table.block.shift.pageSize)).take degree := ⟨_, rfl⟩
    have hholds : HoldsAt page (address % table.block.shift.pageSize) values :=
      hvalues ▸ List.take_prefix _ _
    have hlength : values.length = degree := by
      rw [hvalues, List.length_take, List.length_drop, Array.length_toList]
      omega
    rw [ValueCursor.moveTo, if_neg hzero, hlocate]
    simp only [bind, Except.bind, hpage, Option.map_some, Option.getD_some, if_neg hroom]
    exact ⟨_, values, rfl, ⟨hlength.symm, fun _ ↦ ⟨page, hpage, hholds⟩⟩, hlength,
      fun _ ↦ ⟨address, haddress, hzero, page, hpage, hholds⟩⟩

end ValueTable

/-! ## Targets -/

/-- Targets are read from the list of a slot, which is empty if the address is zero. -/
def Slot.Yields (slot : Slot) (block : Pages UInt8) (targets : List Nat)
    (ending : Except ReadError Unit) : Prop :=
  slot.address = 0 ∧ targets = [] ∧ ending = .ok () ∨
    slot.address ≠ 0 ∧ TracedCursor.AreRead slot block targets ending

theorem Slot.Yields.length_le {slot : Slot} {block : Pages UInt8} {targets : List Nat}
    {ending : Except ReadError Unit} (h : slot.Yields block targets ending) :
    targets.length ≤ slot.degree := by
  rcases h with ⟨_, rfl, _⟩ | ⟨_, _, _, _, hstands, _⟩
  · exact Nat.zero_le _
  · exact (Nat.le_add_left _ _).trans_eq hstands.count_eq

namespace Topology

variable {topology : Topology} {node : Nat} {slot : Slot}

theorem moveTo_of_outside (cursor : TargetCursor) (hslot : topology.index.slot node = .ok slot)
    (hne : slot.address ≠ 0) (h : ¬ topology.block.Contains slot.address) :
    topology.moveTo cursor node = .error (.decode (.addressOutside slot.address)) := by
  rw [moveTo, hslot]
  simp only [TargetCursor.moveTo_of_not_contains cursor hne h]
  rfl

theorem moveTo_of_inside (cursor : TargetCursor) (hslot : topology.index.slot node = .ok slot)
    (hchecked : slot.address = 0 → slot.degree = 0)
    (h : slot.address = 0 ∨ topology.block.Contains slot.address) :
    ∃ moved, topology.moveTo cursor node = .ok moved ∧ moved.remaining = slot.degree ∧
      slot.Yields topology.block (moved.reading topology.block moved.remaining).elements
        (moved.reading topology.block moved.remaining).ending := by
  rw [moveTo, hslot]
  simp only
  by_cases hzero : slot.address = 0
  · rw [TargetCursor.moveTo, if_pos hzero]
    exact ⟨_, rfl, (hchecked hzero).symm, .inl ⟨hzero, rfl, rfl⟩⟩
  · obtain ⟨moved, elements, start, hmove, hstands⟩ :=
      TracedCursor.exists_moveTo_standsIn cursor hzero (h.resolve_left hzero) slot.degree
    rw [hmove]
    exact ⟨moved, rfl, hstands.count_eq, .inr ⟨hzero, hstands.areRead⟩⟩

end Topology

/-! ## Views -/

theorem zip_replicate {α β : Type} (b : β) {count : Nat} {as : List α} (h : as.length ≤ count) :
    as.zip (List.replicate count b) = as.map fun a ↦ (a, b) := by
  induction as generalizing count with
  | nil => rfl
  | cons a as ih =>
    obtain ⟨fewer, rfl⟩ := Nat.exists_eq_add_of_le' h
    rw [List.length_cons, ← Nat.add_assoc, List.replicate_succ, List.zip_cons_cons, List.map_cons,
      ih (Nat.le_add_left _ _)]

/-- There is no place from which a node can be read, be it the targets or the values. -/
inductive Relationships.Misplaces (relationships : Relationships) (node : Nat) (slot : Slot) : Prop
  | targets (hne : slot.address ≠ 0) (h : ¬ relationships.topology.block.Contains slot.address)
  | values {table : ValueTable} (htable : relationships.values = some table)
    (h : table.Misplaces node slot.degree)

/-- The values that belong to the targets of a node: those of the relationship property, or else a
fallback for each. -/
def Relationships.Assigns (relationships : Relationships) (node degree : Nat) (fallback : ValueBits)
    (values : List ValueBits) : Prop :=
  match relationships.values with
  | none => values = List.replicate degree fallback
  | some table => values.length = degree ∧ table.KeepsAt node values

theorem Relationships.Assigns.length_eq {relationships : Relationships} {node degree : Nat}
    {fallback : ValueBits} {values : List ValueBits}
    (h : relationships.Assigns node degree fallback values) : values.length = degree := by
  unfold Assigns at h
  split at h
  · rw [h, List.length_replicate]
  · exact h.1

/-- A view has been put together from a topology and at most one relationship property, and has
passed the checks of the constructors. -/
structure PackedView.PutTogether (view : PackedView) (relationships : Relationships) : Prop where
  index : ∃ addresses degrees,
    TargetIndex.ofParts addresses degrees = .ok relationships.topology.index
  bundle : ∃ topology table, Relationships.ofBlocks topology table = .ok relationships
  view : ∃ ids columns blockTable position,
    PackedView.ofBlocks ids columns relationships blockTable position = .ok view

namespace PackedView

variable {view : PackedView} {relationships : Relationships}

theorem PutTogether.degree_eq_zero (h : view.PutTogether relationships) {node : Nat} {slot : Slot}
    (hslot : relationships.topology.index.slot node = .ok slot) (hzero : slot.address = 0) :
    slot.degree = 0 := by
  obtain ⟨addresses, degrees, hparts⟩ := h.index
  unfold TargetIndex.ofParts at hparts
  dsimp only at hparts
  split_ifs at hparts with _ hall
  rw [TargetIndex.slot, ← Except.ok.inj hparts] at hslot
  have hmem : slot ∈ addresses.zipWith Slot.mk degrees := by
    split at hslot
    · rename_i hget
      rw [← Except.ok.inj hslot]
      exact Array.mem_of_getElem? hget
    · cases hslot
  simpa [hzero] using Array.all_eq_true_iff_forall_mem.mp hall slot hmem

theorem PutTogether.size_addresses (h : view.PutTogether relationships) {table : ValueTable}
    (htable : relationships.values = some table) :
    table.addresses.size = relationships.topology.nodeCount := by
  obtain ⟨topology, values, hbundle⟩ := h.bundle
  cases values with
  | none =>
    rw [← Except.ok.inj hbundle] at htable
    exact nomatch htable
  | some values =>
    rw [Relationships.ofBlocks] at hbundle
    split_ifs at hbundle with _ hsize
    rw [← Except.ok.inj hbundle] at htable ⊢
    rw [← Option.some.inj htable]
    exact not_not.mp hsize

/-- What the constructor makes of relationships. -/
theorem PutTogether.fields_eq (h : view.PutTogether relationships) :
    relationships.topology.nodeCount = view.ids.nodeCount ∧
      view.topology = some ⟨relationships.topology, .exhausted⟩ ∧
      view.hasValues = relationships.values.isSome ∧
      ∃ position, view.values = relationships.values.map fun table ↦
        ⟨table, .exhausted, position⟩ := by
  obtain ⟨ids, columns, blockTable, position, hview⟩ := h.view
  unfold ofBlocks at hview
  dsimp only at hview
  split_ifs at hview with hcount
  split at hview
  · exact nomatch hview
  · rw [← Except.ok.inj hview]
    exact ⟨not_not.mp hcount, rfl, rfl, position, rfl⟩

theorem PutTogether.valueReading_eq (h : view.PutTogether relationships) (node : Nat)
    (fallback : ValueBits) :
    view.valueReading node fallback =
      match relationships.values with
      | none => (relationships.topology.reading node).map fun target ↦ (target, fallback)
      | some table => relationships.topology.valueReading table node := by
  obtain ⟨_, htopology, hhas, position, hvalues⟩ := h.fields_eq
  rw [valueReading, reading, htopology, hhas, hvalues]
  cases relationships.values <;> rfl

/-- A slot for every node of a view. -/
theorem PutTogether.exists_slot (h : view.PutTogether relationships) {node : Nat}
    (hnode : node < view.ids.nodeCount) :
    ∃ slot, relationships.topology.index.slot node = .ok slot := by
  rw [← h.fields_eq.1] at hnode
  exact ⟨_, by rw [TargetIndex.slot, Array.getElem?_eq_getElem hnode]⟩

/-- A node that is misplaced cannot be read at all. -/
theorem PutTogether.valueReading_of_misplaces (h : view.PutTogether relationships) {node : Nat}
    {slot : Slot} (hslot : relationships.topology.index.slot node = .ok slot)
    (hmisplaces : relationships.Misplaces node slot) (fallback : ValueBits) :
    ∃ error, view.valueReading node fallback = .fail (.decode error) := by
  rw [h.valueReading_eq]
  -- The targets are located first. Only if they have a place, the values are looked for.
  by_cases houtside : slot.address ≠ 0 ∧ ¬ relationships.topology.block.Contains slot.address
  · have hmove := Topology.moveTo_of_outside .exhausted hslot houtside.1 houtside.2
    refine ⟨.addressOutside slot.address, ?_⟩
    cases relationships.values with
    | none =>
      simp only [Topology.reading, hmove]
      rfl
    | some table => simp only [Topology.valueReading, hmove]
  · rcases hmisplaces with ⟨hne, hnot⟩ | ⟨htable, hvalues⟩
    · exact absurd ⟨hne, hnot⟩ houtside
    · obtain ⟨moved, hmove, hremaining, _⟩ := Topology.moveTo_of_inside .exhausted hslot
        (h.degree_eq_zero hslot) (by tauto)
      obtain ⟨error, hfail⟩ := ValueTable.moveTo_of_misplaces .exhausted hvalues
      refine ⟨error, ?_⟩
      simp only [htable, Topology.valueReading, hmove, hremaining, hfail]

/-- A node that is not misplaced hands out the targets that its list yields, each with the value
that is assigned to it. -/
theorem PutTogether.valueReading_of_not_misplaces (h : view.PutTogether relationships) {node : Nat}
    (hnode : node < view.ids.nodeCount) {slot : Slot}
    (hslot : relationships.topology.index.slot node = .ok slot)
    (hplaced : ¬ relationships.Misplaces node slot) (fallback : ValueBits) :
    ∃ targets values ending, slot.Yields relationships.topology.block targets ending ∧
      relationships.Assigns node slot.degree fallback values ∧
      view.valueReading node fallback = ⟨targets.zip values, ending⟩ := by
  have hinside : slot.address = 0 ∨ relationships.topology.block.Contains slot.address := by
    by_contra houtside
    exact hplaced (.targets (not_or.mp houtside).1 (not_or.mp houtside).2)
  obtain ⟨moved, hmove, hremaining, hyields⟩ :=
    Topology.moveTo_of_inside .exhausted hslot (h.degree_eq_zero hslot) hinside
  rw [h.valueReading_eq]
  unfold Relationships.Assigns
  cases htable : relationships.values with
  | none =>
    refine ⟨_, _, _, hyields, rfl, ?_⟩
    simp only [Topology.reading, hmove, Reading.map]
    rw [zip_replicate fallback hyields.length_le]
  | some table =>
    have hsize : node < table.addresses.size := by rwa [h.size_addresses htable, h.fields_eq.1]
    obtain ⟨movedValues, values, hmoveValues, hbefore, hlength, hkeeps⟩ :=
      ValueTable.moveTo_of_not_misplaces .exhausted hsize fun hvalues ↦
        hplaced (.values htable hvalues)
    refine ⟨_, values, _, hyields, ⟨hlength, hkeeps⟩, ?_⟩
    simp only [Topology.valueReading, hmove, hremaining, hmoveValues]
    exact PairCursor.reading_eq_zip hbefore hlength

end PackedView

/-- An enumeration of a view that has been put together by hand never breaks down, whatever the
blocks contain and wherever the addresses point, and however the view and its copies were used
before. If the targets or the values of the node have no place in their blocks, it fails before
anything is read. Otherwise the consumer gets the decoded targets in order, the `i`-th one with the
`i`-th value, until it answers with no, the list ends, or the next target, be it the first, cannot be
decoded. -/
theorem hand_made_views_never_mispair {view : PackedView} {relationships : Relationships}
    (h : view.PutTogether relationships) (memory : Memory) (actions : List ReaderAction)
    {used : View} (hused : used ∈ (Readers.performAll ⟨[.packed view], memory⟩ actions).views)
    {node : Nat} (hnode : node < view.ids.nodeCount) :
    ∃ slot, relationships.topology.index.slot node = .ok slot ∧
      ∀ (fallback : ValueBits) (σ : Type) (consume : σ → Nat × ValueBits → σ × Bool) (state : σ),
        let visit := used.visitWithValues node fallback
          (fun state target value ↦ respond (logged consume) state (target, value)) ([], state)
        (relationships.Misplaces node slot →
          visit.state = ([], state) ∧ ∃ error, visit.outcome = .error (.decode error)) ∧
        (¬ relationships.Misplaces node slot → ∃ targets values ending,
          slot.Yields relationships.topology.block targets ending ∧
          relationships.Assigns node slot.degree fallback values ∧
          targets.length ≤ values.length ∧
          StopsWhereAsked consume state (targets.zip values) visit.state.1 visit.state.2 ∧
          visit.outcome = if wantsMoreAfter consume state visit.state.1 then ending else .ok ()) := by
  have hstart : Readers.SameData (.packed view) ⟨[.packed view], memory⟩ := by
    intro other hother
    rw [List.mem_singleton.mp hother]
  have hsame : used.fresh = (View.packed view).fresh := hstart.performAll actions used hused
  obtain ⟨slot, hslot⟩ := h.exists_slot hnode
  refine ⟨slot, hslot, fun fallback σ consume state ↦ ?_⟩
  have hended := used.ended_visitWithValues node fallback
    (fun state target value ↦ respond (logged consume) state (target, value)) ([], state)
  rw [View.valueReading_congr hsame] at hended
  refine ⟨fun hmisplaces ↦ ?_, fun hplaced ↦ ?_⟩
  · obtain ⟨error, hreading⟩ := h.valueReading_of_misplaces hslot hmisplaces fallback
    rw [View.valueReading, hreading] at hended
    obtain ⟨hstate, houtcome⟩ := Prod.mk.inj hended
    exact ⟨hstate, error, houtcome⟩
  · obtain ⟨targets, values, ending, hyields, hassigns, hreading⟩ :=
      h.valueReading_of_not_misplaces hnode hslot hplaced fallback
    obtain ⟨called, final, hcalled, hfeed⟩ :=
      Reading.exists_feed_logged_ending consume ⟨targets.zip values, ending⟩ [] state
    rw [View.valueReading, hreading] at hended
    obtain ⟨hstate, houtcome⟩ := Prod.mk.inj (hended.trans hfeed)
    refine ⟨targets, values, ending, hyields, hassigns, ?_, ?_, ?_⟩
    · rw [hassigns.length_eq]
      exact hyields.length_le
    · rw [hstate]
      exact hcalled
    · rw [houtcome, hstate]
      rfl

/-- A list of two targets in which the second code has no end, with two values. -/
def brokenRelationships : Relationships where
  topology := ⟨⟨⟨2, by decide, by decide⟩, #[#[0, 5, 128]]⟩, ⟨#[⟨1, 2⟩]⟩, 2, .natural, none⟩
  values := some ⟨⟨⟨2, by decide, by decide⟩, #[#[0, 7, 8]]⟩, #[1], 2, 0, none⟩

theorem exists_view_of_brokenRelationships :
    ∃ view : PackedView, view.PutTogether brokenRelationships ∧ view.ids.nodeCount = 1 := by
  have hindex : TargetIndex.ofParts #[1] #[2] = .ok brokenRelationships.topology.index := by
    simp [TargetIndex.ofParts, brokenRelationships]
  have hbundle : Relationships.ofBlocks brokenRelationships.topology brokenRelationships.values =
      .ok brokenRelationships := rfl
  exact ⟨_, ⟨⟨_, _, hindex⟩, ⟨_, _, hbundle⟩, ⟨⟨∅, #[9], ∅⟩, ∅, 0, 0, rfl⟩⟩, rfl⟩

theorem not_misplaces_brokenRelationships : ¬ brokenRelationships.Misplaces 0 ⟨1, 2⟩ := by
  have hinside : brokenRelationships.topology.block.Contains 1 := ⟨_, rfl, by decide⟩
  rintro (⟨_, houtside⟩ | @⟨table, htable, ⟨haddress, _⟩ | ⟨haddress, _, houtside⟩ |
    ⟨haddress, _, hpage, hsize⟩⟩)
  · exact houtside hinside
  all_goals obtain rfl := Option.some.inj htable
  · exact absurd haddress (by decide)
  · obtain rfl := Option.some.inj haddress
    exact houtside ⟨_, rfl, by decide⟩
  · obtain rfl := Option.some.inj haddress
    obtain rfl := Option.some.inj hpage
    exact absurd hsize (by decide)

/-- The first target of a broken list comes with its value. Then there is a failure. -/
theorem broken_list_is_read_up_to_its_second_target :
    ∃ view : PackedView, view.PutTogether brokenRelationships ∧ 0 < view.ids.nodeCount ∧
      ¬ brokenRelationships.Misplaces 0 ⟨1, 2⟩ ∧
      let visit := (View.packed view).visitWithValues 0 0 (fun state target value ↦
        respond (logged fun (state : Unit) _ ↦ (state, true)) state (target, value)) ([], ())
      visit.state.1 = [(5, 7)] ∧
        visit.outcome = .error (.decode (.endsInsideValue 0 3)) ∧
        ∃ targets values, visit.state.1 = targets.zip values ∧
          Slot.Yields ⟨1, 2⟩ brokenRelationships.topology.block targets visit.outcome ∧
          brokenRelationships.Assigns 0 2 0 values := by
  obtain ⟨view, hview, hcount⟩ := exists_view_of_brokenRelationships
  have hnode : 0 < view.ids.nodeCount := hcount ▸ Nat.one_pos
  have hplaced := not_misplaces_brokenRelationships
  refine ⟨view, hview, hnode, hplaced, ?_⟩
  obtain ⟨slot, hslot, hvisit⟩ := hand_made_views_never_mispair hview .empty [] (.head _) hnode
  obtain rfl : (⟨1, 2⟩ : Slot) = slot := Except.ok.inj hslot
  obtain ⟨targets, values, ending, hyields, hassigns, _, hcalled, houtcome⟩ :=
    (hvisit 0 Unit (fun state _ ↦ (state, true)) ()).2 hplaced
  have hended := (View.packed view).ended_visitWithValues 0 0 (fun state target value ↦
    respond (logged fun (state : Unit) _ ↦ (state, true)) state (target, value)) ([], ())
  rw [View.valueReading, hview.valueReading_eq] at hended
  obtain ⟨hstate, hfailed⟩ := Prod.mk.inj hended
  have hall := by_contra fun hdiffer ↦ by
    obtain ⟨_, _, _, hrefused⟩ := hcalled.refused hdiffer
    cases hrefused
  rw [hstate] at houtcome
  intro visit
  exact ⟨congrArg Prod.fst hstate, hfailed, targets, values, hall, houtcome ▸ hyields, hassigns⟩

end PackedGraph
