import Mathlib
import PackedGraph.Proofs.Arithmetic.Ordering
import PackedGraph.Proofs.Community.Tally

/-!
# Majorities

A tally may be used again and again, and its entries may change their order at any time. It still
holds what the votes since it was cleared add up to, label by label. If these totals are numbers,
the winner is the smallest of the labels with the largest total, in whatever order the entries are
compared.
-/

namespace PackedGraph.VoteTally

/-- The total weight of the votes for a label, which are added to zero one after another. -/
def weightOf (votes : List (UInt64 × Float)) (label : UInt64) : Float :=
  ((votes.filter fun vote ↦ vote.1 = label).map Prod.snd).foldl (· + ·) 0.0

/-- What changes a tally. -/
inductive Call where
  | clear
  | vote (label : UInt64) (weight : Float)

/-- A tally that has gone through some calls. Its entries may have been rearranged in between. -/
inductive UsedBy : List Call → VoteTally → Prop
  | new : UsedBy [] []
  | clear {calls : List Call} {tally : VoteTally} :
    UsedBy calls tally → UsedBy (calls ++ [.clear]) []
  | vote {calls : List Call} {tally : VoteTally} (label : UInt64) (weight : Float) :
    UsedBy calls tally → UsedBy (calls ++ [.vote label weight]) (tally.vote label weight)
  | rearrange {calls : List Call} {tally other : VoteTally} :
    UsedBy calls tally → tally.Perm other → UsedBy calls other

/-- The votes since the last time that the tally was cleared. -/
def votesSince (calls : List Call) : List (UInt64 × Float) :=
  calls.foldl (fun votes call ↦
    match call with
    | .clear => []
    | .vote label weight => votes ++ [(label, weight)]) []

variable {tally other : VoteTally} {votes : List (UInt64 × Float)} {calls : List Call}
variable {label : UInt64} {weight : Float}

/-! ## Totals -/

theorem weightOf_append_vote (votes : List (UInt64 × Float)) (label : UInt64) (weight : Float)
    (candidate : UInt64) :
    weightOf (votes ++ [(label, weight)]) candidate =
      if candidate = label then weightOf votes label + weight else weightOf votes candidate := by
  rw [weightOf, List.filter_append]
  split_ifs with heq
  · subst heq
    rw [List.filter_cons_of_pos (by simp), List.filter_nil, List.map_append, List.foldl_append]
    rfl
  · rw [List.filter_cons_of_neg (by simpa using Ne.symm heq), List.filter_nil, List.append_nil]
    rfl

theorem weightOf_eq_zero (h : label ∉ votes.map Prod.fst) : weightOf votes label = 0.0 := by
  have hnone : votes.filter (fun vote ↦ vote.1 = label) = [] := by
    rw [List.filter_eq_nil_iff]
    intro vote hvote heq
    exact h (List.mem_map.mpr ⟨vote, hvote, of_decide_eq_true heq⟩)
  rw [weightOf, hnone]
  rfl

theorem lookup_cons_eq (entry : UInt64 × Float) (rest : VoteTally) (candidate : UInt64) :
    List.lookup candidate (entry :: rest) =
      if candidate = entry.1 then some entry.2 else rest.lookup candidate := by
  rw [List.lookup_cons]
  by_cases h : candidate = entry.1
  · rw [if_pos h, beq_iff_eq.mpr h]
  · rw [if_neg h, beq_eq_false_iff_ne.mpr h]

/-- A vote adds to the total of its label, and changes no other one. -/
theorem lookup_vote (tally : VoteTally) (label : UInt64) (weight : Float) (candidate : UInt64) :
    (tally.vote label weight).lookup candidate =
      if candidate = label then some ((tally.lookup label).getD 0.0 + weight)
      else tally.lookup candidate := by
  induction tally with
  | nil => rw [vote, lookup_cons_eq]; rfl
  | cons entry rest ih =>
    obtain ⟨first, total⟩ := entry
    rw [vote]
    split_ifs with hfirst hcandidate hcandidate
    · subst hfirst hcandidate
      rw [lookup_cons_eq, if_pos rfl, lookup_cons_eq, if_pos rfl, Option.getD_some]
    · subst hfirst
      rw [lookup_cons_eq, if_neg hcandidate, lookup_cons_eq, if_neg hcandidate]
    · subst hcandidate
      rw [lookup_cons_eq, if_neg (Ne.symm hfirst), ih, if_pos rfl, lookup_cons_eq,
        if_neg (Ne.symm hfirst)]
    · rw [lookup_cons_eq, lookup_cons_eq, ih, if_neg hcandidate]

theorem nodup_labels_vote (h : tally.labels.Nodup) : (tally.vote label weight).labels.Nodup := by
  induction tally with
  | nil => exact List.nodup_singleton label
  | cons entry rest ih =>
    obtain ⟨hfirst, hrest⟩ := List.nodup_cons.mp h
    rw [vote]
    split_ifs with heq
    · exact h
    · refine List.nodup_cons.mpr ⟨fun hmem ↦ ?_, ih hrest⟩
      rcases mem_labels_vote.mp hmem with hlabel | hlater
      · exact heq hlabel
      · exact hfirst hlater

theorem mem_iff_lookup (h : tally.labels.Nodup) {total : Float} :
    (label, total) ∈ tally ↔ tally.lookup label = some total := by
  induction tally with
  | nil => exact iff_of_false List.not_mem_nil nofun
  | cons entry rest ih =>
    obtain ⟨hfirst, hrest⟩ := List.nodup_cons.mp h
    rw [lookup_cons_eq, List.mem_cons, ih hrest]
    split_ifs with heq
    · -- The other entries are for other labels.
      have hnone : rest.lookup label ≠ some total := by
        intro hlookup
        apply hfirst
        rw [← heq]
        exact List.mem_map_of_mem ((ih hrest).mpr hlookup)
      rw [or_iff_left hnone, Option.some_inj, Prod.ext_iff, and_iff_right heq]
      exact eq_comm
    · exact or_iff_right fun hentry ↦ heq (congrArg Prod.fst hentry)

/-- A tally holds the totals of some votes. -/
structure Counts (votes : List (UInt64 × Float)) (tally : VoteTally) : Prop where
  nodup : tally.labels.Nodup
  lookup_eq : ∀ label, tally.lookup label =
    if label ∈ votes.map Prod.fst then some (weightOf votes label) else none

theorem counts_nil : Counts [] [] := ⟨List.nodup_nil, fun _ ↦ rfl⟩

theorem Counts.vote (h : Counts votes tally) (label : UInt64) (weight : Float) :
    Counts (votes ++ [(label, weight)]) (tally.vote label weight) := by
  refine ⟨nodup_labels_vote h.nodup, fun candidate ↦ ?_⟩
  have htotal : (tally.lookup label).getD 0.0 = weightOf votes label := by
    rw [h.lookup_eq]
    split_ifs with hvoted
    · rfl
    · exact (weightOf_eq_zero hvoted).symm
  have hvoted : candidate ∈ (votes ++ [(label, weight)]).map Prod.fst ↔
      candidate ∈ votes.map Prod.fst ∨ candidate = label := by
    rw [List.map_append, List.mem_append, List.map_singleton, List.mem_singleton]
  rw [lookup_vote, htotal, weightOf_append_vote, h.lookup_eq, if_congr hvoted rfl rfl]
  by_cases heq : candidate = label
  · rw [if_pos heq, if_pos (.inr heq), if_pos heq]
  · rw [if_neg heq, if_neg heq, if_congr (or_iff_left heq) rfl rfl]

theorem Counts.perm (h : Counts votes tally) (hperm : tally.Perm other) : Counts votes other := by
  have hnodup : other.labels.Nodup := (hperm.map Prod.fst).nodup_iff.mp h.nodup
  refine ⟨hnodup, fun label ↦ ?_⟩
  rw [← h.lookup_eq]
  ext total
  rw [← mem_iff_lookup hnodup, ← mem_iff_lookup h.nodup, hperm.mem_iff]

/-- A tally holds the totals of the votes since it was cleared. -/
theorem UsedBy.counts (h : UsedBy calls tally) : Counts (votesSince calls) tally := by
  induction h with
  | new => exact counts_nil
  | clear =>
    rw [votesSince, List.foldl_append]
    exact counts_nil
  | vote label weight _ ih =>
    rw [votesSince, List.foldl_append]
    exact ih.vote label weight
  | rearrange _ hperm ih => exact ih.perm hperm

theorem Counts.mem_iff (h : Counts votes tally) (entry : UInt64 × Float) :
    entry ∈ tally ↔ entry.1 ∈ votes.map Prod.fst ∧ entry.2 = weightOf votes entry.1 := by
  rw [mem_iff_lookup h.nodup, h.lookup_eq]
  split_ifs with hvoted
  · rw [Option.some_inj, and_iff_right hvoted]
    exact eq_comm
  · exact iff_of_false nofun fun hentry ↦ hvoted hentry.1

theorem Counts.eq_nil_iff (h : Counts votes tally) : tally = [] ↔ votes = [] := by
  simp only [List.eq_nil_iff_forall_not_mem, h.mem_iff, List.mem_map]
  constructor
  · intro hnone vote hvote
    exact hnone (vote.1, weightOf votes vote.1) ⟨⟨vote, hvote, rfl⟩, rfl⟩
  · rintro hnone entry ⟨⟨vote, hvote, _⟩, _⟩
    exact hnone vote hvote

/-! ## The order of the entries -/

/-- An entry has no smaller total than another one, and no larger label if the totals are equal. -/
def Surpasses (entry other : UInt64 × Float) : Prop :=
  other.2 ≤ entry.2 ∧ (entry.2 ≤ other.2 → entry.1 ≤ other.1)

theorem Surpasses.trans {a b c : UInt64 × Float} (hab : Surpasses a b) (hbc : Surpasses b c) :
    Surpasses a c := by
  refine ⟨FloatOrder.le_trans hbc.1 hab.1, fun hac ↦ ?_⟩
  have hba : a.1 ≤ b.1 := hab.2 (FloatOrder.le_trans hac hbc.1)
  have hcb : b.1 ≤ c.1 := hbc.2 (FloatOrder.le_trans hab.1 hac)
  exact UInt64.le_trans hba hcb

theorem surpasses_self {entry : UInt64 × Float} (h : entry.2.isNaN = false) :
    Surpasses entry entry :=
  ⟨FloatOrder.le_of_not_lt h h (FloatOrder.lt_irrefl _), fun _ ↦ UInt64.le_refl _⟩

/-- The better one of two entries surpasses both of them. -/
theorem better_surpasses {best entry : UInt64 × Float} (hbest : best.2.isNaN = false)
    (hentry : entry.2.isNaN = false) :
    Surpasses (better (some best) entry) best ∧ Surpasses (better (some best) entry) entry := by
  rw [better]
  split_ifs with hkeeps
  · refine ⟨surpasses_self hbest, ?_⟩
    rcases Bool.or_eq_true _ _ ▸ hkeeps with hless | hequal
    · have hlt : entry.2 < best.2 := of_decide_eq_true hless
      refine ⟨FloatOrder.le_of_lt hlt, fun hle ↦ ?_⟩
      exact absurd (FloatOrder.lt_of_le_of_lt hle hlt) (FloatOrder.lt_irrefl _)
    · rw [Bool.and_eq_true, FloatOrder.beq_iff_le_and_ge, decide_eq_true_eq] at hequal
      exact ⟨hequal.1.1, fun _ ↦ UInt64.le_of_lt hequal.2⟩
  · rw [Bool.or_eq_true, not_or, decide_eq_true_eq, Bool.and_eq_true, not_and,
      FloatOrder.beq_iff_le_and_ge, decide_eq_true_eq, UInt64.not_lt] at hkeeps
    have hle : best.2 ≤ entry.2 := FloatOrder.le_of_not_lt hentry hbest hkeeps.1
    exact ⟨⟨hle, fun hge ↦ hkeeps.2 ⟨hge, hle⟩⟩, surpasses_self hentry⟩

/-- The best of some entries surpasses all of them, whatever their order. -/
theorem exists_foldl_surpasses {entries : VoteTally} (best : UInt64 × Float)
    (hnumbers : ∀ entry ∈ best :: entries, entry.2.isNaN = false) :
    ∃ winner, entries.foldl (fun best entry ↦ some (better best entry)) (some best) = some winner ∧
      winner ∈ best :: entries ∧ ∀ entry ∈ best :: entries, Surpasses winner entry := by
  induction entries generalizing best with
  | nil =>
    refine ⟨best, rfl, List.mem_cons_self, fun entry hentry ↦ ?_⟩
    rw [List.mem_singleton.mp hentry]
    exact surpasses_self (hnumbers best List.mem_cons_self)
  | cons entry entries ih =>
    obtain ⟨hbest, hentry, hentries⟩ : best.2.isNaN = false ∧ entry.2.isNaN = false ∧
        ∀ later ∈ entries, later.2.isNaN = false := by
      simpa only [List.forall_mem_cons] using hnumbers
    obtain ⟨hsurpassesBest, hsurpassesEntry⟩ := better_surpasses hbest hentry
    have hbetter : better (some best) entry = entry ∨ better (some best) entry = best :=
      (better_mem (some best) entry).imp_right Option.some_inj.mp
    have hnumber : (better (some best) entry).2.isNaN = false := by
      rcases hbetter with h | h <;> rwa [h]
    obtain ⟨winner, hfold, hmem, hall⟩ := ih (better (some best) entry)
      (List.forall_mem_cons.mpr ⟨hnumber, hentries⟩)
    obtain ⟨hfirst, hlater⟩ := List.forall_mem_cons.mp hall
    refine ⟨winner, hfold, ?_, ?_⟩
    · rcases List.mem_cons.mp hmem with rfl | hrest
      · rcases hbetter with h | h <;> simp [h]
      · simp [hrest]
    · simp only [List.forall_mem_cons]
      exact ⟨hfirst.trans hsurpassesBest, hfirst.trans hsurpassesEntry, hlater⟩

theorem exists_winner_surpasses (hne : tally ≠ [])
    (hnumbers : ∀ entry ∈ tally, entry.2.isNaN = false) (current : UInt64) :
    ∃ winner ∈ tally, tally.winner current = winner.1 ∧
      ∀ entry ∈ tally, Surpasses winner entry := by
  obtain ⟨first, rest, rfl⟩ := List.exists_cons_of_ne_nil hne
  obtain ⟨winner, hfold, hmem, hall⟩ := exists_foldl_surpasses first hnumbers
  refine ⟨winner, hmem, ?_, hall⟩
  rw [VoteTally.winner, List.foldl_cons, better, hfold]

/-! ## The winner -/

/-- The label that wins is the smallest of those with the largest total of their votes, if all these
totals are numbers. Neither what happened before the tally was cleared nor the order of its entries
matters. A node without votes keeps its label. -/
theorem winner_is_smallest_of_heaviest (hused : UsedBy calls tally)
    (hnumbers : ∀ vote ∈ votesSince calls, (weightOf (votesSince calls) vote.1).isNaN = false)
    (current : UInt64) :
    let votes := votesSince calls
    (votes = [] → tally.winner current = current) ∧
      (votes ≠ [] → IsLeast {label | label ∈ votes.map Prod.fst ∧
        ∀ vote ∈ votes, weightOf votes vote.1 ≤ weightOf votes label} (tally.winner current)) := by
  intro votes
  have hcounts : Counts votes tally := hused.counts
  constructor
  · intro hnone
    rw [hcounts.eq_nil_iff.mpr hnone]
    rfl
  intro hsome
  have htotals : ∀ entry ∈ tally, entry.2.isNaN = false := by
    intro entry hentry
    obtain ⟨hvoted, htotal⟩ := (hcounts.mem_iff entry).mp hentry
    obtain ⟨vote, hvote, hlabel⟩ := List.mem_map.mp hvoted
    rw [htotal, ← hlabel]
    exact hnumbers vote hvote
  obtain ⟨winner, hmem, hwinner, hall⟩ :=
    exists_winner_surpasses (hcounts.eq_nil_iff.not.mpr hsome) htotals current
  obtain ⟨hvoted, htotal⟩ := (hcounts.mem_iff winner).mp hmem
  have hsurpasses : ∀ label ∈ votes.map Prod.fst,
      Surpasses (winner.1, weightOf votes winner.1) (label, weightOf votes label) := by
    intro label hlabel
    rw [← htotal]
    exact hall _ ((hcounts.mem_iff _).mpr ⟨hlabel, rfl⟩)
  rw [hwinner]
  refine ⟨⟨hvoted, fun vote hvote ↦ (hsurpasses _ (List.mem_map_of_mem hvote)).1⟩, ?_⟩
  rintro label ⟨hlabel, hheaviest⟩
  obtain ⟨vote, hvote, hfirst⟩ := List.mem_map.mp hvoted
  exact (hsurpasses label hlabel).2 (hfirst ▸ hheaviest vote hvote)

/-- In a tally that has been cleared once, 1 wins against 3 and 5, which have the same total. -/
theorem smallest_of_three_wins :
    let calls : List Call :=
      [.vote 9 8.0, .clear, .vote 5 0.5, .vote 3 2.0, .vote 5 1.5, .vote 1 2.0]
    ∃ tally, UsedBy calls tally ∧ tally.labels = [5, 1, 3] ∧ tally.winner 7 = 1 ∧
      IsLeast {label | label ∈ (votesSince calls).map Prod.fst ∧
        ∀ vote ∈ votesSince calls,
          weightOf (votesSince calls) vote.1 ≤ weightOf (votesSince calls) label} 1 := by
  intro calls
  have hvotes : UsedBy calls [(5, 0.0 + 0.5 + 1.5), (3, 0.0 + 2.0), (1, 0.0 + 2.0)] :=
    ((((((UsedBy.new).vote 9 8.0).clear).vote 5 0.5).vote 3 2.0).vote 5 1.5).vote 1 2.0
  have hused : UsedBy calls [(5, 0.0 + 0.5 + 1.5), (1, 0.0 + 2.0), (3, 0.0 + 2.0)] :=
    hvotes.rearrange ((List.Perm.swap _ _ _).cons _)
  have hwinner : winner [(5, 0.0 + 0.5 + 1.5), (1, 0.0 + 2.0), (3, 0.0 + 2.0)] 7 = 1 := by
    decide +kernel
  have hnumbers : ∀ vote ∈ votesSince calls,
      (weightOf (votesSince calls) vote.1).isNaN = false := by decide +kernel
  have hleast := (winner_is_smallest_of_heaviest hused hnumbers 7).2 (by decide)
  rw [hwinner] at hleast
  exact ⟨_, hused, rfl, hwinner, hleast⟩

end PackedGraph.VoteTally
