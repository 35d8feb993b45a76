import PackedGraph.Proofs.Build.Compression

/-!
# Consistency of a builder

The values of all relationships of a builder can be kept in a single array, in which each of them
has a stretch of one value for every declared key. Whatever calls a builder has received, it can be
compressed unless its settings are wrong or some list is too long, and no fault occurs.
-/

namespace PackedGraph

/-! ## Flat values -/

/-- Relationships in flat form: the ends of each with the position of its first value, and the
values of all of them one after another. -/
structure FlatArcs where
  entries : Array (Nat × Nat × Nat)
  values : Array ValueBits

namespace FlatArcs

def empty : FlatArcs := ⟨#[], #[]⟩

def push (flat : FlatArcs) (arc : Arc) : FlatArcs :=
  ⟨flat.entries.push (arc.source, arc.target, flat.values.size), flat.values ++ arc.values⟩

/-- The first of some arcs are laid out with equally many values each. -/
structure LaysOut (flat : FlatArcs) (count : Nat) (arcs : Array Arc) (done : Nat) : Prop where
  size_entries : flat.entries.size = done
  size_values : flat.values.size = done * count
  entry_eq : ∀ i < done, ∀ arc, arcs[i]? = some arc →
    flat.entries[i]? = some (arc.source, arc.target, i * count)
  stretch_eq : ∀ i < done, ∀ arc, arcs[i]? = some arc →
    flat.values.extract (i * count) ((i + 1) * count) = arc.values

/-- The values of the next arc come after all others, which stay where they are. -/
theorem LaysOut.push {flat : FlatArcs} {count : Nat} {arcs : Array Arc} {done : Nat}
    (h : flat.LaysOut count arcs done) {arc : Arc} (harc : arcs[done]? = some arc)
    (hvalues : arc.values.size = count) : (flat.push arc).LaysOut count arcs (done + 1) := by
  have hsize := h.size_values
  refine ⟨?_, ?_, fun i hi other hother ↦ ?_, fun i hi other hother ↦ ?_⟩
  · rw [FlatArcs.push, Array.size_push, h.size_entries]
  · rw [FlatArcs.push, Array.size_append, hsize, hvalues, Nat.succ_mul]
  · rw [FlatArcs.push, Array.getElem?_push, h.size_entries]
    rcases Nat.lt_succ_iff_lt_or_eq.mp hi with hold | rfl
    · rw [if_neg hold.ne]
      exact h.entry_eq i hold other hother
    · obtain rfl := Option.some.inj (harc.symm.trans hother)
      rw [if_pos rfl, hsize]
  · rw [FlatArcs.push, Array.extract_append, hsize]
    rcases Nat.lt_succ_iff_lt_or_eq.mp hi with hold | rfl
    · have hend : (i + 1) * count ≤ done * count := Nat.mul_le_mul_right count hold
      have hnone : arc.values.extract (i * count - done * count)
          ((i + 1) * count - done * count) = #[] := by
        rw [Nat.sub_eq_zero_of_le hend]
        exact Array.extract_eq_empty_iff.mpr (by simp)
      rw [hnone, Array.append_empty]
      exact h.stretch_eq i hold other hother
    · obtain rfl := Option.some.inj (harc.symm.trans hother)
      have hnone : flat.values.extract (i * count) ((i + 1) * count) = #[] :=
        Array.extract_empty_of_size_le_start hsize.le
      have hall : (i + 1) * count - i * count = arc.values.size := by
        rw [Nat.succ_mul, Nat.add_sub_cancel_left, hvalues]
      rw [hnone, Array.empty_append, Nat.sub_self, hall]
      exact Array.extract_size

end FlatArcs

namespace GraphBuilder

/-- The arcs of a builder in flat form. -/
def flatArcs (builder : GraphBuilder) : FlatArcs := builder.arcs.foldl FlatArcs.push .empty

variable {builder : GraphBuilder}

theorem Valid.laysOut_flatArcs (h : builder.Valid) :
    builder.flatArcs.LaysOut builder.keys.length builder.arcs builder.arcs.size := by
  apply Array.foldl_induction
    (fun done flat ↦ FlatArcs.LaysOut flat builder.keys.length builder.arcs done)
  · exact ⟨rfl, (Nat.zero_mul _).symm, nofun, nofun⟩
  · intro i flat hflat
    exact hflat.push (Array.getElem?_eq_getElem i.isLt) (h.size_values _ (Array.getElem_mem i.isLt))

/-- A call that is rejected leaves the flat form as it was, and one that is accepted appends its
arc. -/
theorem flatArcs_perform (h : builder.Valid) (call : BuilderCall) :
    (builder.perform call).2.flatArcs = builder.flatArcs ∨
      ∃ arc, call.arcs (builder.perform call).2.ids = [arc] ∧
        (builder.perform call).2.flatArcs = builder.flatArcs.push arc := by
  rcases perform_cases h call with ⟨error, heq⟩ | ⟨answer, after, heq, _, harcs⟩
  · rw [heq]
    exact .inl rfl
  · have hflat : after.flatArcs = (call.arcs after.ids).foldl FlatArcs.push builder.flatArcs := by
      rw [flatArcs, flatArcs, ← Array.foldl_toList, ← Array.foldl_toList, harcs, List.foldl_append]
    have hlength := call.length_arcs_le after.ids
    rw [heq, hflat]
    match call.arcs after.ids, hlength with
    | [], _ => exact .inl rfl
    | [arc], _ => exact .inr ⟨arc, rfl, rfl⟩

/-! ## Outcomes -/

theorem not_buildable_iff :
    ¬ builder.Buildable ↔ builder.pageShift < 1 ∨ 30 < builder.pageShift ∨ "" ∈ builder.keys ∨
      ¬ builder.keys.Nodup := by
  constructor
  · intro h
    by_contra hnone
    simp only [not_or, not_lt, not_not] at hnone
    obtain ⟨hone, hle, hempty, hnodup⟩ := hnone
    exact h ⟨hone, hle, hnodup, hempty⟩
  · rintro (hshift | hshift | hempty | hnodup) h
    · exact absurd h.one_le_pageShift (not_le.mpr hshift)
    · exact absurd h.pageShift_le (not_le.mpr hshift)
    · exact h.empty_notMem_keys hempty
    · exact hnodup h.nodup_keys

end GraphBuilder

/-- Whatever calls a builder has received, accepted or not, its relationships join nodes that are
there, and the values of the `i`-th one are the `i`-th stretch of the flat array, with one value for
each key that is declared now. A further call appends its relationship to the flat arrays, or leaves
them as they are. The values of a node property agree in type and belong to nodes that are there. So
compressing is refused if the page size is out of range, or a key is empty or repeated, and else it
succeeds, unless some list is too long to be counted with 32 bits. It never ends in a fault. -/
theorem builder_is_consistent_after_any_calls (calls : List BuilderCall) :
    let builder := GraphBuilder.new.performAll calls
    let flat := builder.flatArcs
    let count := builder.keys.length
    (flat.entries.size = builder.arcs.size ∧ flat.values.size = builder.arcs.size * count ∧
      ∀ i arc, builder.arcs[i]? = some arc →
        arc.source < builder.nodeCount ∧ arc.target < builder.nodeCount ∧
        flat.entries[i]? = some (arc.source, arc.target, i * count) ∧
        arc.values.size = count ∧
        flat.values.extract (i * count) ((i + 1) * count) = arc.values) ∧
    (∀ call : BuilderCall, (builder.perform call).2.flatArcs = flat ∨
      ∃ arc, call.arcs (builder.perform call).2.ids = [arc] ∧
        (builder.perform call).2.flatArcs = flat.push arc) ∧
    (∀ (key : String) (record : PropertyRecord), builder.properties[key]? = some record →
      ∀ entry ∈ record.values, entry.1 < builder.nodeCount ∧ entry.2.type = record.type) ∧
    ((∃ error, builder.compress = .error (.config error)) ↔
      builder.pageShift < 1 ∨ 30 < builder.pageShift ∨ "" ∈ builder.keys ∨
        ¬ builder.keys.Nodup) ∧
    ((∀ error, builder.compress ≠ .error (.config error)) →
      (∀ node < builder.nodeCount, (builder.targets node).length < 2 ^ 32) →
        ∃ graph, builder.compress = .ok graph ∧ graph.Stores builder) ∧
    ∀ fault, builder.compress ≠ .error (.fault fault) := by
  intro builder flat count
  have hvalid : builder.Valid := GraphBuilder.valid_new.performAll calls
  have hflat := hvalid.laysOut_flatArcs
  refine ⟨⟨hflat.size_entries, hflat.size_values, fun i arc harc ↦ ?_⟩,
    GraphBuilder.flatArcs_perform hvalid, hvalid.records, ?_, ?_, ?_⟩
  · have hmem := Array.mem_of_getElem? harc
    obtain ⟨hi, _⟩ := Array.getElem?_eq_some_iff.mp harc
    obtain ⟨hsource, htarget⟩ := hvalid.ends_lt arc hmem
    exact ⟨hsource, htarget, hflat.entry_eq i hi arc harc, hvalid.size_values arc hmem,
      hflat.stretch_eq i hi arc harc⟩
  · rw [← GraphBuilder.not_buildable_iff]
    rcases hvalid.compress_cases with
      ⟨hwrong, herror⟩ | ⟨hright, ⟨graph, hcompress, _⟩ | ⟨node, _, _, hcompress⟩⟩
    · exact iff_of_true herror hwrong
    · refine iff_of_false ?_ (not_not.mpr hright)
      rintro ⟨error, herror⟩
      exact nomatch hcompress.symm.trans herror
    · refine iff_of_false ?_ (not_not.mpr hright)
      rintro ⟨error, herror⟩
      exact nomatch hcompress.symm.trans herror
  · intro hconfig hshort
    rcases hvalid.compress_cases with
      ⟨_, error, herror⟩ | ⟨_, hgraph | ⟨node, hnode, hlong, _⟩⟩
    · exact absurd herror (hconfig error)
    · exact hgraph
    · exact absurd (hshort node hnode) (not_lt.mpr hlong)
  · intro fault hfault
    rcases hvalid.compress_cases with
      ⟨_, error, hcompress⟩ | ⟨_, ⟨graph, hcompress, _⟩ | ⟨node, _, _, hcompress⟩⟩ <;>
      exact nomatch hcompress.symm.trans hfault

end PackedGraph
