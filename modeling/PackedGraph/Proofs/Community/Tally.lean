import Mathlib
import PackedGraph.Community.VoteTally

/-!
# Winners of votes

The labels of a tally are those that got a vote. Its winner is one of them, and the current label of
the voter matters only if there are no votes.
-/

namespace PackedGraph.VoteTally

/-- The labels that got a vote, in the order of their first votes. -/
def labels (tally : VoteTally) : List UInt64 := tally.map Prod.fst

variable {tally : VoteTally} {label other current : UInt64} {weight : Float}

theorem mem_labels_vote :
    other ∈ (tally.vote label weight).labels ↔ other = label ∨ other ∈ tally.labels := by
  unfold labels
  induction tally with
  | nil => simp [vote]
  | cons entry rest ih =>
    rw [vote]
    split_ifs with heq
    · subst heq
      simp
    · rw [List.map_cons, List.mem_cons, ih, List.map_cons, List.mem_cons]
      exact or_left_comm

/-- The labels of a tally that has counted some more votes. -/
theorem mem_labels_foldl_vote {α : Type} {choice : α → UInt64} {weigh : α → Float} {votes : List α} :
    label ∈ (votes.foldl (fun tally vote ↦ tally.vote (choice vote) (weigh vote)) tally).labels ↔
      label ∈ tally.labels ∨ ∃ vote ∈ votes, choice vote = label := by
  induction votes generalizing tally with
  | nil => simp
  | cons vote votes ih =>
    rw [List.foldl_cons, ih, mem_labels_vote, eq_comm (a := label)]
    simp only [List.mem_cons, exists_eq_or_imp, or_assoc]
    exact or_left_comm

theorem better_mem (best : Option (UInt64 × Float)) (entry : UInt64 × Float) :
    better best entry = entry ∨ some (better best entry) = best := by
  cases best with
  | none => exact .inl rfl
  | some best =>
    rw [better]
    split_ifs
    · exact .inr rfl
    · exact .inl rfl

/-- The best entry of some entries is one of them, unless an earlier one is better than all. -/
theorem exists_foldl_better (best : Option (UInt64 × Float)) (entry : UInt64 × Float)
    (rest : VoteTally) :
    ∃ winner, (entry :: rest).foldl (fun best entry ↦ some (better best entry)) best =
        some winner ∧ (winner ∈ entry :: rest ∨ some winner = best) := by
  induction rest generalizing best entry with
  | nil =>
    refine ⟨better best entry, rfl, ?_⟩
    rw [List.mem_singleton]
    exact better_mem best entry
  | cons next rest ih =>
    obtain ⟨winner, hfold, hwinner⟩ := ih (some (better best entry)) next
    refine ⟨winner, hfold, ?_⟩
    rcases hwinner with hrest | hbest
    · exact .inl (List.mem_cons_of_mem _ hrest)
    obtain rfl := Option.some_inj.mp hbest
    rcases better_mem best entry with hentry | hearlier
    · exact .inl (List.mem_cons.mpr (.inl hentry))
    · exact .inr hearlier

/-- The winner of some votes is one of the labels that got a vote, whatever the current label is. -/
theorem exists_winner (h : tally ≠ []) :
    ∃ winner ∈ tally.labels, ∀ current, tally.winner current = winner := by
  obtain ⟨entry, rest, rfl⟩ := List.exists_cons_of_ne_nil h
  obtain ⟨winner, hfold, hwinner⟩ := exists_foldl_better none entry rest
  refine ⟨winner.1, List.mem_map_of_mem (hwinner.resolve_right nofun), fun current ↦ ?_⟩
  rw [VoteTally.winner, hfold]

theorem winner_congr (h : tally ≠ []) (current other : UInt64) :
    tally.winner current = tally.winner other := by
  obtain ⟨winner, _, hwinner⟩ := exists_winner h
  rw [hwinner, hwinner]

/-- A node keeps its label, or takes one that got a vote. -/
theorem winner_eq_or_mem (tally : VoteTally) (current : UInt64) :
    tally.winner current = current ∨ tally.winner current ∈ tally.labels := by
  by_cases h : tally = []
  · subst h
    exact .inl rfl
  · obtain ⟨winner, hmem, hwinner⟩ := exists_winner h
    exact .inr (hwinner current ▸ hmem)

end PackedGraph.VoteTally
