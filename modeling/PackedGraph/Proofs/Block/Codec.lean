import Mathlib
import PackedGraph.Block.Gap

/-!
# Encodings in a page

A record stands in a page from some index on. The gaps of a sorted list are the encodings of its
differences, one after another.
-/

namespace PackedGraph

variable {α : Type}

/-- A page holds a record from an index on. -/
def HoldsAt (page : Array α) (index : Nat) (record : List α) : Prop :=
  record <+: page.toList.drop index

namespace HoldsAt

theorem nil (page : Array α) (index : Nat) : HoldsAt page index [] := List.nil_prefix

theorem cons_iff {page : Array α} {index : Nat} {a : α} {record : List α} :
    HoldsAt page index (a :: record) ↔ page[index]? = some a ∧ HoldsAt page (index + 1) record := by
  unfold HoldsAt
  rw [← Array.getElem?_toList]
  by_cases h : index < page.toList.length
  · rw [List.drop_eq_getElem_cons h, List.cons_prefix_cons, List.getElem?_eq_getElem h,
      Option.some_inj, eq_comm]
  · have hlen : page.toList.length ≤ index := Nat.le_of_not_lt h
    rw [List.drop_eq_nil_of_le hlen, List.getElem?_eq_none hlen]
    simp

theorem append_iff {page : Array α} {index : Nat} {first second : List α} :
    HoldsAt page index (first ++ second) ↔
      HoldsAt page index first ∧ HoldsAt page (index + first.length) second := by
  induction first generalizing index with
  | nil => simp [nil]
  | cons a first ih =>
    rw [List.cons_append, cons_iff, cons_iff, ih, List.length_cons, and_assoc,
      show index + 1 + first.length = index + (first.length + 1) by omega]

theorem mono {page longer : Array α} {index : Nat} {record : List α}
    (hpage : page.toList <+: longer.toList) (h : HoldsAt page index record) :
    HoldsAt longer index record := by
  obtain ⟨rest, hrest⟩ := hpage
  by_cases hindex : index ≤ page.toList.length
  · refine h.trans ⟨rest, ?_⟩
    rw [← hrest, List.drop_append_of_le_length hindex]
  · have hempty : page.toList.drop index = [] := List.drop_eq_nil_of_le (by omega)
    rw [HoldsAt, hempty, List.prefix_nil] at h
    rw [h]
    exact nil _ _

/-- What is appended to a page stands at its old end. -/
theorem append_size (page : Array α) (record : Array α) :
    HoldsAt (page ++ record) page.size record.toList := by
  rw [HoldsAt, Array.toList_append, ← Array.length_toList, List.drop_left]

theorem lt_size {page : Array α} {index : Nat} {record : List α}
    (h : HoldsAt page index record) (hne : record ≠ []) : index < page.size := by
  obtain ⟨a, rest, rfl⟩ := List.exists_cons_of_ne_nil hne
  have hget : page[index]? = some a := (cons_iff.mp h).1
  exact (Array.getElem?_eq_some_iff.mp hget).1

end HoldsAt

namespace VarInt

theorem encode_of_lt {value : Nat} (h : value < 128) : encode value = [value.toUInt8] := by
  rw [encode, if_pos h]

theorem encode_of_le {value : Nat} (h : 128 ≤ value) :
    encode value = (value % 128 + 128).toUInt8 :: encode (value / 128) := by
  rw [encode, if_neg (by omega)]

theorem encode_ne_nil (value : Nat) : encode value ≠ [] := by
  rw [encode]
  split <;> simp

theorem toNat_toUInt8_of_lt {n : Nat} (h : n < 256) : n.toUInt8.toNat = n := by
  rw [Nat.toUInt8, UInt8.toNat_ofNat']
  exact Nat.mod_eq_of_lt h

end VarInt

namespace Gap

/-- The bytes of the gaps of sorted targets that follow `previous`. -/
def bytesAfter (previous : Nat) : List Nat → List UInt8
  | [] => []
  | target :: targets => VarInt.encode (target - previous) ++ bytesAfter target targets

theorem bytesAfter_ne_nil {previous : Nat} {targets : List Nat} (h : targets ≠ []) :
    bytesAfter previous targets ≠ [] := by
  obtain ⟨target, rest, rfl⟩ := List.exists_cons_of_ne_nil h
  simp [bytesAfter, VarInt.encode_ne_nil]

theorem appendAfter_of_sorted (buffer : Array UInt8) {previous : Nat} {targets : List Nat}
    (sorted : (previous :: targets).Pairwise (· ≤ ·)) :
    appendAfter buffer previous targets =
      (buffer ++ (bytesAfter previous targets).toArray,
        .ok (bytesAfter previous targets).length) := by
  induction targets generalizing buffer previous with
  | nil => simp [appendAfter, bytesAfter]
  | cons target targets ih =>
    rw [List.pairwise_cons] at sorted
    have hle : previous ≤ target := sorted.1 target List.mem_cons_self
    rw [appendAfter, if_neg (by omega)]
    simp only [ih _ sorted.2, bytesAfter, Except.map, List.length_append, Prod.mk.injEq, and_true]
    apply Array.toList_inj.mp
    simp

/-- A sorted list is encoded as its bytes, and their number is returned. -/
theorem append_of_sorted (buffer : Array UInt8) {targets : List Nat}
    (sorted : targets.Pairwise (· ≤ ·)) :
    append buffer targets =
      (buffer ++ (bytesAfter 0 targets).toArray, .ok (bytesAfter 0 targets).length) :=
  appendAfter_of_sorted buffer (List.pairwise_cons.mpr ⟨fun _ _ ↦ Nat.zero_le _, sorted⟩)

end Gap

end PackedGraph
