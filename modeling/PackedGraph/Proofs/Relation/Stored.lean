import PackedGraph.Proofs.Block.TargetLists
import PackedGraph.Proofs.Block.ValueLists
import PackedGraph.Proofs.View.Reading

/-!
# Reading stored relationships

A topology that stores some lists hands out the list of each node. Together with a table of values
it hands out every target with its own value.
-/

namespace PackedGraph

/-- What a cursor before a list reads is the list. -/
theorem TargetCursor.reading_of_before {cursor : TargetCursor} {block : Pages UInt8}
    {targets : List Nat} (h : cursor.Before block targets) :
    cursor.reading block targets.length = ⟨targets, .ok ()⟩ := by
  induction targets generalizing cursor with
  | nil => rfl
  | cons target targets ih =>
    obtain ⟨moved, hnext, hmoved⟩ := next_of_before_cons h
    rw [List.length_cons, reading]
    simp only [hnext, ih hmoved, Reading.cons]

/-- As many values as targets may be read move in step with the targets, however the two blocks are
paged and wherever the targets end. -/
theorem PairCursor.reading_eq_zip {block : Pages UInt8} {valueBlock : Pages ValueBits}
    {cursor : PairCursor} {values : List ValueBits} {count : Nat}
    (h : cursor.values.Before valueBlock values) (hlength : values.length = count) :
    reading block valueBlock count cursor =
      ⟨(cursor.targets.reading block count).elements.zip values,
        (cursor.targets.reading block count).ending⟩ := by
  induction count generalizing cursor values with
  | zero => rfl
  | succ count ih =>
    obtain ⟨first, rest, rfl⟩ := List.exists_cons_of_length_eq_add_one hlength
    rw [reading, TargetCursor.reading]
    cases hnext : cursor.targets.next block with
    | error error => rfl
    | ok step =>
      obtain ⟨target, moved⟩ := step
      obtain ⟨movedValues, hvalue, hbefore⟩ := ValueCursor.nextBits_of_before_cons h
      have hrest := @ih ⟨moved, movedValues⟩ rest hbefore (Nat.succ.inj hlength)
      simp only [hvalue, hrest]
      rfl

theorem PairCursor.reading_of_before {block : Pages UInt8} {valueBlock : Pages ValueBits}
    {cursor : TargetCursor} {valueCursor : ValueCursor} {targets : List Nat}
    {values : List ValueBits}
    (h : cursor.Before block targets)
    (hvalues : valueCursor.Before valueBlock values)
    (hlength : values.length = targets.length) :
    reading block valueBlock targets.length ⟨cursor, valueCursor⟩ =
      ⟨targets.zip values, .ok ()⟩ := by
  rw [reading_eq_zip hvalues hlength, TargetCursor.reading_of_before h]

theorem getElem?_map_range {α : Type} {f : Nat → α} {count i : Nat} (h : i < count) :
    ((List.range count).map f)[i]? = some (f i) := by
  rw [List.getElem?_map, List.getElem?_range h, Option.map_some]

/-- A topology stores the lists of its nodes. -/
structure Topology.Stores (topology : Topology) (lists : List (List Nat)) : Prop where
  indexed : topology.index.Lists topology.block lists
  packable : ∀ targets ∈ lists, Packable targets

/-- A table stores the values of its nodes. -/
def ValueTable.Stores (table : ValueTable) (lists : List (List ValueBits)) : Prop :=
  List.Forall₂ (ValueAddress table.block) table.addresses.toList lists

theorem Topology.Stores.moveTo {topology : Topology} {lists : List (List Nat)}
    (h : topology.Stores lists) (cursor : TargetCursor) {node : Nat} {targets : List Nat}
    (hnode : lists[node]? = some targets) :
    ∃ moved, topology.moveTo cursor node = .ok moved ∧ moved.Before topology.block targets := by
  obtain ⟨slot, hslot, hrefers⟩ := h.indexed.slot_eq hnode
  have hpack := h.packable targets (List.mem_of_getElem? hnode)
  obtain ⟨moved, hmove, hmoved⟩ := TargetCursor.moveTo_of_refersTo cursor hrefers hpack
  refine ⟨moved, ?_, hmoved⟩
  simp only [Topology.moveTo, hslot, hmove, Except.mapError]

theorem ValueTable.Stores.moveTo {table : ValueTable} {lists : List (List ValueBits)}
    (h : table.Stores lists) (cursor : ValueCursor) {node : Nat} {values : List ValueBits}
    (hnode : lists[node]? = some values) :
    ∃ moved, table.moveTo cursor node values.length = .ok moved ∧
      moved.Before table.block values := by
  obtain ⟨address, haddress, hrefers⟩ := forall₂_lookup h hnode
  obtain ⟨moved, hmove, hmoved⟩ := cursor.moveTo_of_valueAddress hrefers
  rw [Array.getElem?_toList] at haddress
  refine ⟨moved, ?_, hmoved⟩
  simp only [ValueTable.moveTo, haddress, hmove, Except.mapError]

theorem Topology.Stores.reading_eq {topology : Topology} {lists : List (List Nat)}
    (h : topology.Stores lists) {node : Nat} {targets : List Nat}
    (hnode : lists[node]? = some targets) : topology.reading node = ⟨targets, .ok ()⟩ := by
  obtain ⟨moved, hmove, hmoved⟩ := h.moveTo .exhausted hnode
  rw [Topology.reading, hmove]
  simp only [hmoved.remaining_eq]
  exact TargetCursor.reading_of_before hmoved

theorem Topology.Stores.valueReading_eq {topology : Topology} {lists : List (List Nat)}
    (h : topology.Stores lists) {table : ValueTable} {valueLists : List (List ValueBits)}
    (htable : table.Stores valueLists) {node : Nat} {targets : List Nat} {values : List ValueBits}
    (hnode : lists[node]? = some targets) (hvalues : valueLists[node]? = some values)
    (hlength : values.length = targets.length) :
    topology.valueReading table node = ⟨targets.zip values, .ok ()⟩ := by
  obtain ⟨moved, hmove, hmoved⟩ := h.moveTo .exhausted hnode
  obtain ⟨movedValues, hmoveValues, hmovedValues⟩ := htable.moveTo .exhausted hvalues
  rw [hlength] at hmoveValues
  rw [Topology.valueReading, hmove]
  simp only [hmoved.remaining_eq, hmoveValues]
  exact PairCursor.reading_of_before hmoved hmovedValues hlength

end PackedGraph
