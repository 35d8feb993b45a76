import Mathlib

/-!
# Distances in a graph

A graph is given by the targets of each node. The distance between two nodes is the length of a
shortest walk from the one to the other. A node at some distance has one at every smaller distance
before it, so no distance reaches the number of nodes.
-/

namespace PackedGraph

/-- A walk of a given length leads from a node to another. -/
def Walk (targets : Nat → List Nat) : (length : Nat) → (source node : Nat) → Prop
  | 0, source, node => source = node
  | length + 1, source, node => ∃ last, Walk targets length source last ∧ node ∈ targets last

/-- A shortest walk from a node to another has a given length. -/
def AtDistance (targets : Nat → List Nat) (distance source node : Nat) : Prop :=
  Walk targets distance source node ∧ ∀ shorter < distance, ¬ Walk targets shorter source node

/-- Some walk leads from a node to another one. -/
def Reaches (targets : Nat → List Nat) (source node : Nat) : Prop :=
  source ≠ node ∧ ∃ length, Walk targets length source node

/-- The length of a shortest walk, if there is one. -/
noncomputable def distance (targets : Nat → List Nat) (source node : Nat) : Nat :=
  sInf {length | Walk targets length source node}

variable {targets : Nat → List Nat} {source node : Nat}

theorem atDistance_zero : AtDistance targets 0 source node ↔ source = node :=
  and_iff_left fun _ hshorter ↦ absurd hshorter (Nat.not_lt_zero _)

theorem AtDistance.unique {d e : Nat} (hd : AtDistance targets d source node)
    (he : AtDistance targets e source node) : d = e := by
  rcases lt_trichotomy d e with hlt | heq | hgt
  · exact absurd hd.1 (he.2 d hlt)
  · exact heq
  · exact absurd he.1 (hd.2 e hgt)

theorem exists_atDistance_of_walk {length : Nat} (h : Walk targets length source node) :
    ∃ d ≤ length, AtDistance targets d source node := by
  classical
  have hwalk : ∃ d, Walk targets d source node := ⟨length, h⟩
  exact ⟨Nat.find hwalk, Nat.find_min' hwalk h, Nat.find_spec hwalk,
    fun _ hshorter ↦ Nat.find_min hwalk hshorter⟩

theorem AtDistance.distance_eq {d : Nat} (h : AtDistance targets d source node) :
    distance targets source node = d := by
  apply le_antisymm
  · exact Nat.sInf_le h.1
  · have hwalk : Walk targets (distance targets source node) source node :=
      Nat.sInf_mem (s := {length | Walk targets length source node}) ⟨d, h.1⟩
    by_contra hlt
    exact h.2 _ (not_le.mp hlt) hwalk

theorem atDistance_iff_of_pos {d : Nat} (hd : 0 < d) :
    AtDistance targets d source node ↔
      Reaches targets source node ∧ distance targets source node = d := by
  constructor
  · intro h
    refine ⟨⟨?_, d, h.1⟩, h.distance_eq⟩
    intro heq
    exact h.2 0 hd heq
  · rintro ⟨⟨_, length, hwalk⟩, rfl⟩
    obtain ⟨e, _, he⟩ := exists_atDistance_of_walk hwalk
    rw [he.distance_eq]
    exact he

theorem Reaches.atDistance (h : Reaches targets source node) :
    0 < distance targets source node ∧
      AtDistance targets (distance targets source node) source node := by
  obtain ⟨hne, length, hwalk⟩ := h
  obtain ⟨d, _, hd⟩ := exists_atDistance_of_walk hwalk
  rw [hd.distance_eq]
  refine ⟨Nat.pos_of_ne_zero ?_, hd⟩
  rintro rfl
  exact hne (atDistance_zero.mp hd)

/-- The last but one node of a shortest walk is one closer to the source. -/
theorem AtDistance.exists_last {d : Nat} (h : AtDistance targets (d + 1) source node) :
    ∃ last, AtDistance targets d source last ∧ node ∈ targets last := by
  obtain ⟨last, hwalk, hlast⟩ := h.1
  refine ⟨last, ⟨hwalk, fun shorter hshorter hwalk ↦ ?_⟩, hlast⟩
  exact h.2 (shorter + 1) (Nat.succ_lt_succ hshorter) ⟨last, hwalk, hlast⟩

/-- A node within reach of one more step is within reach already, or it is a target of a node that
takes all the steps before. -/
theorem exists_walk_le_succ_iff {d : Nat} :
    (∃ length ≤ d + 1, Walk targets length source node) ↔
      (∃ length ≤ d, Walk targets length source node) ∨
        ∃ last, AtDistance targets d source last ∧ node ∈ targets last := by
  constructor
  · rintro ⟨length, hle, hwalk⟩
    obtain ⟨e, he, hdistance⟩ := exists_atDistance_of_walk hwalk
    rcases Nat.le_succ_iff.mp (he.trans hle) with hnear | rfl
    · exact .inl ⟨e, hnear, hdistance.1⟩
    · exact .inr hdistance.exists_last
  · rintro (⟨length, hle, hwalk⟩ | ⟨last, hlast, hnode⟩)
    · exact ⟨length, Nat.le_succ_of_le hle, hwalk⟩
    · exact ⟨d + 1, le_rfl, last, hlast.1, hnode⟩

theorem atDistance_succ_iff {d : Nat} :
    AtDistance targets (d + 1) source node ↔
      (∃ last, AtDistance targets d source last ∧ node ∈ targets last) ∧
        ¬ ∃ length ≤ d, Walk targets length source node := by
  constructor
  · intro h
    refine ⟨h.exists_last, ?_⟩
    rintro ⟨length, hle, hwalk⟩
    exact h.2 length (Nat.lt_succ_of_le hle) hwalk
  · rintro ⟨⟨last, hlast, hnode⟩, hfar⟩
    refine ⟨⟨last, hlast.1, hnode⟩, fun shorter hshorter hwalk ↦ ?_⟩
    exact hfar ⟨shorter, Nat.le_of_lt_succ hshorter, hwalk⟩

theorem AtDistance.exists_closer {d : Nat} (h : AtDistance targets d source node) :
    ∀ e ≤ d, ∃ closer, AtDistance targets e source closer := by
  induction d generalizing node with
  | zero =>
    intro e he
    rw [Nat.le_zero.mp he]
    exact ⟨node, h⟩
  | succ d ih =>
    intro e he
    rcases Nat.le_succ_iff.mp he with hle | rfl
    · obtain ⟨last, hlast, _⟩ := h.exists_last
      exact ih hlast e hle
    · exact ⟨node, h⟩

/-- The nodes on a shortest walk are different, so there are more of them than its length. -/
theorem AtDistance.lt_of_bounded {d count : Nat} (h : AtDistance targets d source node)
    (hbounded : ∀ e ≤ d, ∀ closer, AtDistance targets e source closer → closer < count) :
    d < count := by
  choose! closer hcloser using h.exists_closer
  have hcard : (Finset.range (d + 1)).card ≤ (Finset.range count).card := by
    apply Finset.card_le_card_of_injOn closer
    · intro e he
      have hle : e ≤ d := Nat.lt_succ_iff.mp (Finset.mem_range.mp he)
      exact Finset.mem_coe.mpr (Finset.mem_range.mpr (hbounded e hle _ (hcloser e hle)))
    · intro e he e' he' heq
      have hle : e ≤ d := Nat.lt_succ_iff.mp (Finset.mem_range.mp (Finset.mem_coe.mp he))
      have hle' : e' ≤ d := Nat.lt_succ_iff.mp (Finset.mem_range.mp (Finset.mem_coe.mp he'))
      exact (hcloser e hle).unique (heq ▸ hcloser e' hle')
  rw [Finset.card_range, Finset.card_range] at hcard
  exact hcard

end PackedGraph
