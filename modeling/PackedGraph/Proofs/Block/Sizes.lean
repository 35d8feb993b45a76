import PackedGraph.Proofs.Block.TargetLists
import PackedGraph.Proofs.Block.ValueLists

/-!
# Sizes of blocks

The size of an encoded list is known without encoding it. A block has the reserved element and the
elements of its records, and nothing else, wherever the records have been placed.
-/

namespace PackedGraph

namespace Gap

/-- The size of a list that follows a smaller target is the number of its bytes. -/
theorem sizeAfter_eq {previous : Nat} {targets : List Nat}
    (hsorted : (previous :: targets).Pairwise (· ≤ ·))
    (hsmall : ∀ target ∈ targets, target < 2 ^ 64) :
    sizeAfter previous targets = (bytesAfter previous targets).length := by
  induction targets generalizing previous with
  | nil => rfl
  | cons target targets ih =>
    rw [List.pairwise_cons] at hsorted
    have hle : previous ≤ target := hsorted.1 target List.mem_cons_self
    have hlt : target < 2 ^ 64 := hsmall target List.mem_cons_self
    have hgap : (target + UInt64.size - previous) % UInt64.size = target - previous := by
      rw [Nat.sub_add_comm hle, Nat.add_mod_right]
      exact Nat.mod_eq_of_lt ((Nat.sub_le _ _).trans_lt hlt)
    rw [sizeAfter, hgap, bytesAfter, List.length_append, VarInt.length_encode,
      ih hsorted.2 fun other hother ↦ hsmall other (List.mem_cons_of_mem _ hother)]

theorem size_eq {targets : List Nat} (hsorted : targets.Pairwise (· ≤ ·))
    (hsmall : ∀ target ∈ targets, target < 2 ^ 64) : size targets = (bytesAfter 0 targets).length :=
  sizeAfter_eq (List.pairwise_cons.mpr ⟨fun _ _ ↦ Nat.zero_le _, hsorted⟩) hsmall

end Gap

namespace PagesBuilder

variable {α : Type} (builder : PagesBuilder α)

/-- The number of elements in the pages of a block under construction. -/
def used : Nat := (builder.complete.toList.map Array.size).sum + builder.current.size

theorem used_flush : builder.flush.used = builder.used := by
  rw [flush]
  split_ifs with hempty
  · rfl
  · simp [used]

theorem used_roomFor (record : Array α) : (builder.roomFor record).used = builder.used := by
  rw [roomFor]
  split_ifs
  · exact builder.used_flush
  · rfl

theorem used_eq_sum_build : builder.used = (builder.build.pages.toList.map Array.size).sum := by
  rw [← builder.used_flush, used, flush_current]
  rfl

/-- A record takes as many places as it has elements: no page is filled up, and none stays empty. -/
theorem used_push (record : Array α) :
    (builder.push record).1.used = builder.used + record.size := by
  by_cases hlarge : builder.shift.pageSize < record.size
  · rw [push_of_large hlarge, builder.used_eq_sum_build]
    simp [used]
  · rw [push_of_small (not_lt.mp hlarge), ← builder.used_roomFor record, used, used,
      Array.size_append, Nat.add_assoc]

theorem sizeInBytes_build [Element α] :
    builder.build.sizeInBytes = builder.used * Element.width α := by
  rw [Pages.sizeInBytes, ← Array.foldl_toList, ← List.sum_eq_foldl, Array.toList_map,
    used_eq_sum_build, ← List.sum_map_mul_right]

end PagesBuilder

/-- A list takes its encoded size in a block of targets, and a slot in the index. -/
theorem TargetBlockBuilder.used_add {builder next : TargetBlockBuilder} {targets : List Nat}
    (hsorted : targets.Pairwise (· ≤ ·)) (hsmall : ∀ target ∈ targets, target < 2 ^ 64)
    (h : builder.add targets = .ok next) :
    next.pages.used = builder.pages.used + Gap.size targets ∧
      next.slots.size = builder.slots.size + 1 := by
  rw [add, Gap.append_of_sorted #[] hsorted] at h
  simp only [addEncoded] at h
  split_ifs at h with hlong hempty
  · obtain rfl := Except.ok.inj h
    obtain rfl := List.length_eq_zero_iff.mp hempty
    exact ⟨rfl, Array.size_push _⟩
  · obtain rfl := Except.ok.inj h
    refine ⟨?_, Array.size_push _⟩
    rw [PagesBuilder.used_push, Gap.size_eq hsorted hsmall]
    simp

theorem ValueBlockBuilder.used_add (builder : ValueBlockBuilder) (values : Array UInt64) :
    (builder.add values).pages.used = builder.pages.used + values.size ∧
      (builder.add values).addresses.size = builder.addresses.size + 1 := by
  rw [add]
  split_ifs with hempty
  · obtain rfl := Array.isEmpty_iff.mp hempty
    exact ⟨rfl, Array.size_push _⟩
  · exact ⟨builder.pages.used_push values, Array.size_push _⟩

end PackedGraph
