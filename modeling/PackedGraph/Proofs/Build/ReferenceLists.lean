import Mathlib
import PackedGraph.Build.Compress

/-!
# The lists of a graph

The list of a node is fixed by the arcs alone: they are laid out, those that leave the node are
sorted by target without changing the order of parallel ones, and parallel ones are merged. Sorting
all arcs at once and cutting them at the sources gives the same lists.
-/

namespace PackedGraph

/-! ## Stable sorting -/

section StableSort

variable {α : Type}

/-- Sorting keeps the order of elements that compare as equal. -/
theorem filter_mergeSort_of_tied (le : α → α → Bool)
    (htrans : ∀ a b c, le a b → le b c → le a c) (htotal : ∀ a b, le a b || le b a)
    {p : α → Bool} (htied : ∀ a b, p a → p b → le a b) (l : List α) :
    (l.mergeSort le).filter p = l.filter p := by
  have hpairwise : (l.filter p).Pairwise (le · ·) := by
    rw [List.pairwise_filter]
    exact List.pairwise_of_forall fun a b ha hb ↦ htied a b ha hb
  have hsub := (List.sublist_mergeSort htrans htotal hpairwise List.filter_sublist).filter p
  simp only [List.filter_filter, Bool.and_self] at hsub
  exact (hsub.eq_of_length ((List.mergeSort_perm l le).filter p).length_eq.symm).symm

theorem mem_iff_of_filter_eq {key : α → Nat} {as bs : List α}
    (h : ∀ k, as.filter (key · == k) = bs.filter (key · == k)) (a : α) : a ∈ as ↔ a ∈ bs := by
  have hfilter : a ∈ as.filter (key · == key a) ↔ a ∈ bs.filter (key · == key a) := by rw [h]
  simpa using hfilter

/-- A list that is sorted by a key is determined by its elements of each key. -/
theorem eq_of_sorted_of_filter_eq (key : α → Nat) {as bs : List α}
    (has : as.Pairwise fun a b ↦ key a ≤ key b) (hbs : bs.Pairwise fun a b ↦ key a ≤ key b)
    (h : ∀ k, as.filter (key · == k) = bs.filter (key · == k)) : as = bs := by
  have hmem := mem_iff_of_filter_eq h
  induction as generalizing bs with
  | nil =>
    rw [eq_comm, List.eq_nil_iff_forall_not_mem]
    exact fun b hb ↦ List.not_mem_nil ((hmem b).mpr hb)
  | cons a as ih =>
    cases bs with
    | nil => exact absurd ((hmem a).mp List.mem_cons_self) List.not_mem_nil
    | cons b bs =>
      rw [List.pairwise_cons] at has hbs
      have hab : key a ≤ key b := by
        rcases List.mem_cons.mp ((hmem b).mpr List.mem_cons_self) with heq | hb
        · exact (congrArg key heq).ge
        · exact has.1 b hb
      have hba : key b ≤ key a := by
        rcases List.mem_cons.mp ((hmem a).mp List.mem_cons_self) with heq | ha
        · exact (congrArg key heq).ge
        · exact hbs.1 a ha
      have hkey : key b = key a := le_antisymm hba hab
      have hhead := h (key a)
      rw [List.filter_cons_of_pos (by simp), List.filter_cons_of_pos (by simp [hkey]),
        List.cons.injEq] at hhead
      obtain ⟨rfl, htail⟩ := hhead
      have hrest : ∀ k, as.filter (key · == k) = bs.filter (key · == k) := by
        intro k
        by_cases hk : key a = k
        · rw [← hk]
          exact htail
        · have hk := h k
          rwa [List.filter_cons_of_neg (by simpa), List.filter_cons_of_neg (by simpa)] at hk
      rw [ih has.2 hbs.2 hrest (mem_iff_of_filter_eq hrest)]

end StableSort

/-! ## Entries -/

/-- The list entries that stand for an arc. -/
def Orientation.entries (orientation : Orientation) (arc : Arc) : List Arc :=
  match orientation with
  | natural => [arc]
  | reverse => [arc.reversed]
  | undirected => [arc, arc.reversed]

theorem Orientation.layOut_eq (orientation : Orientation) (arcs : List Arc) :
    orientation.layOut arcs = arcs.flatMap orientation.entries := by
  cases orientation with
  | natural => exact (List.flatMap_singleton' arcs).symm
  | reverse => exact List.map_eq_flatMap
  | undirected => rfl

/-- The entries of a node, sorted by target and otherwise in the order of the arcs. -/
def nodeEntries (orientation : Orientation) (arcs : List Arc) (node : Nat) : List Arc :=
  ((arcs.flatMap orientation.entries).filter (·.source == node)).mergeSort
    fun a b ↦ a.target ≤ b.target

namespace Arc

theorem le_iff (a b : Arc) :
    a.le b ↔ a.source < b.source ∨ a.source = b.source ∧ a.target ≤ b.target := by
  simp [le]

theorem le_trans (a b c : Arc) (hab : a.le b) (hbc : b.le c) : a.le c := by
  rw [le_iff] at *
  omega

theorem le_total (a b : Arc) : a.le b || b.le a := by
  rw [Bool.or_eq_true, le_iff, le_iff]
  omega

end Arc

theorem target_le_trans (a b c : Arc) (hab : decide (a.target ≤ b.target))
    (hbc : decide (b.target ≤ c.target)) : decide (a.target ≤ c.target) := by
  rw [decide_eq_true_eq] at *
  exact hab.trans hbc

theorem target_le_total (a b : Arc) :
    decide (a.target ≤ b.target) || decide (b.target ≤ a.target) := by
  rw [Bool.or_eq_true, decide_eq_true_eq, decide_eq_true_eq]
  exact le_total _ _

theorem pairwise_target_mergeSort (arcs : List Arc) :
    (arcs.mergeSort fun a b ↦ a.target ≤ b.target).Pairwise fun a b ↦ a.target ≤ b.target :=
  (List.pairwise_mergeSort target_le_trans target_le_total arcs).imp of_decide_eq_true

/-- The arcs of a source come out of a sort of all arcs as they come out of a sort of their own. -/
theorem filter_source_mergeSort (arcs : List Arc) (node : Nat) :
    (arcs.mergeSort Arc.le).filter (·.source == node) =
      (arcs.filter (·.source == node)).mergeSort fun a b ↦ a.target ≤ b.target := by
  apply eq_of_sorted_of_filter_eq Arc.target
  · rw [List.pairwise_filter]
    refine (List.pairwise_mergeSort Arc.le_trans Arc.le_total arcs).imp fun {a b} hab ha hb ↦ ?_
    rw [Arc.le_iff] at hab
    rw [beq_iff_eq] at ha hb
    omega
  · exact pairwise_target_mergeSort _
  · intro target
    have htied (a b : Arc) (ha : a.target == target) (hb : b.target == target) :
        decide (a.target ≤ b.target) := by
      rw [beq_iff_eq] at ha hb
      rw [ha, hb, decide_eq_true_eq]
    rw [filter_mergeSort_of_tied _ target_le_trans target_le_total htied, List.filter_filter,
      List.filter_filter]
    apply filter_mergeSort_of_tied Arc.le Arc.le_trans Arc.le_total
    intro a b ha hb
    rw [Bool.and_eq_true, beq_iff_eq, beq_iff_eq] at ha hb
    rw [Arc.le_iff]
    omega

/-! ## Cutting at the sources -/

theorem lt_source_of_mem_dropWhile {node : Nat} {arcs : List Arc}
    (hsorted : arcs.Pairwise fun a b ↦ a.source ≤ b.source)
    (hle : ∀ arc ∈ arcs, node ≤ arc.source) :
    ∀ arc ∈ arcs.dropWhile (·.source == node), node < arc.source := by
  induction arcs with
  | nil => exact fun arc harc ↦ absurd harc List.not_mem_nil
  | cons first arcs ih =>
    rw [List.pairwise_cons] at hsorted
    have hfirst := hle first List.mem_cons_self
    by_cases heq : first.source = node
    · rw [List.dropWhile_cons_of_pos (by simpa using heq)]
      exact ih hsorted.2 fun arc harc ↦ hle arc (List.mem_cons_of_mem _ harc)
    · rw [List.dropWhile_cons_of_neg (by simpa using heq)]
      intro arc harc
      rcases List.mem_cons.mp harc with rfl | harc
      · omega
      · have := hsorted.1 arc harc
        omega

/-- Sorted arcs are cut into the arcs of each source. -/
theorem cutBySource_eq {node count : Nat} {arcs : List Arc}
    (hsorted : arcs.Pairwise fun a b ↦ a.source ≤ b.source)
    (hle : ∀ arc ∈ arcs, node ≤ arc.source) :
    cutBySource node count arcs =
      (List.range' node count).map fun source ↦ arcs.filter (·.source == source) := by
  induction count generalizing node arcs with
  | zero => rfl
  | succ count ih =>
    have hlater := lt_source_of_mem_dropWhile hsorted hle
    have htake : ∀ arc ∈ arcs.takeWhile (·.source == node), arc.source = node := fun arc harc ↦ by
      simpa using List.mem_takeWhile_imp harc
    have hfilter (source : Nat) : arcs.filter (·.source == source) =
        (arcs.takeWhile (·.source == node)).filter (·.source == source) ++
          (arcs.dropWhile (·.source == node)).filter (·.source == source) := by
      rw [← List.filter_append, List.takeWhile_append_dropWhile]
    rw [cutBySource, List.range'_succ, List.map_cons,
      ih (hsorted.sublist (List.dropWhile_sublist _)) hlater]
    congr 1
    · rw [hfilter, List.filter_eq_self.mpr (by simpa using htake),
        List.filter_eq_nil_iff.mpr (fun arc harc ↦ by simpa using (hlater arc harc).ne'),
        List.append_nil]
    · refine List.map_congr_left fun source hsource ↦ ?_
      have hlt : node < source := (List.mem_range'_1.mp hsource).1
      have hnil : (arcs.takeWhile (·.source == node)).filter (·.source == source) = [] := by
        rw [List.filter_eq_nil_iff]
        intro arc harc
        rw [htake arc harc]
        simpa using hlt.ne
      rw [hfilter source, hnil, List.nil_append]

/-! ## Merging parallel arcs -/

/-- The value of an arc for the key at a position. -/
def Arc.valueAt (arc : Arc) (key : Nat) : ValueBits := arc.values.getD key 0

/-- The maximal runs of entries with the same target. -/
def parallelRuns (entries : List Arc) : List (List Arc) :=
  entries.splitBy fun a b ↦ a.target == b.target

/-- The targets and values that some entries stand for: their own if all are kept, else each target
once, with the merged value of its run. -/
def Aggregation.list (aggregation : Aggregation) (entries : List Arc) (key : Nat) :
    List (Nat × ValueBits) :=
  match aggregation with
  | keepAll => entries.map fun entry ↦ (entry.target, entry.valueAt key)
  | _ =>
    (parallelRuns entries).filterMap fun run ↦
      run.head?.map fun entry ↦ (entry.target, aggregation.merge (run.map (·.valueAt key)))

/-- The runs of some entries: neighbouring runs have different targets. -/
structure GroupedAs (entries : List Arc) (runs : List Run) : Prop where
  flatten_eq : (runs.map Run.arcs).flatten = entries
  ne_nil : ∀ run ∈ runs, run.arcs ≠ []
  target_eq : ∀ run ∈ runs, ∀ arc ∈ run.arcs, arc.target = run.target
  chain : runs.IsChain fun a b ↦ a.target ≠ b.target

theorem GroupedAs.extend {entries : List Arc} {run : Run} {runs : List Run}
    (h : GroupedAs entries (run :: runs)) {entry : Arc} (htarget : run.target = entry.target) :
    GroupedAs (entry :: entries) (⟨run.target, entry :: run.arcs⟩ :: runs) where
  flatten_eq := congrArg (entry :: ·) h.flatten_eq
  ne_nil := by
    intro other hother
    rcases List.mem_cons.mp hother with rfl | hother
    · exact List.cons_ne_nil _ _
    · exact h.ne_nil other (List.mem_cons_of_mem _ hother)
  target_eq := by
    intro other hother arc harc
    rcases List.mem_cons.mp hother with rfl | hother
    · rcases List.mem_cons.mp harc with rfl | harc
      · exact htarget.symm
      · exact h.target_eq run List.mem_cons_self arc harc
    · exact h.target_eq other (List.mem_cons_of_mem _ hother) arc harc
  chain := List.isChain_cons.mpr (List.isChain_cons.mp h.chain)

theorem GroupedAs.cons {entries : List Arc} {runs : List Run} (h : GroupedAs entries runs)
    {entry : Arc} (htarget : ∀ run ∈ runs.head?, entry.target ≠ run.target) :
    GroupedAs (entry :: entries) (⟨entry.target, [entry]⟩ :: runs) where
  flatten_eq := congrArg (entry :: ·) h.flatten_eq
  ne_nil := by
    intro other hother
    rcases List.mem_cons.mp hother with rfl | hother
    · exact List.cons_ne_nil _ _
    · exact h.ne_nil other hother
  target_eq := by
    intro other hother arc harc
    rcases List.mem_cons.mp hother with rfl | hother
    · rw [List.mem_singleton.mp harc]
    · exact h.target_eq other hother arc harc
  chain := List.isChain_cons.mpr ⟨htarget, h.chain⟩

theorem groupedAs_group (entries : List Arc) : GroupedAs entries (Run.group entries) := by
  induction entries with
  | nil => exact ⟨rfl, nofun, nofun, .nil⟩
  | cons entry entries ih =>
    rw [Run.group]
    cases hgroup : Run.group entries with
    | nil => exact (hgroup ▸ ih).cons nofun
    | cons run runs =>
      rw [hgroup] at ih
      simp only
      split_ifs with htarget
      · exact ih.extend htarget
      · refine ih.cons fun other hother ↦ ?_
        rw [List.head?_cons, Option.mem_some_iff] at hother
        exact hother ▸ Ne.symm htarget

theorem GroupedAs.parallelRuns_eq {entries : List Arc} {runs : List Run}
    (h : GroupedAs entries runs) : parallelRuns entries = runs.map Run.arcs := by
  rw [parallelRuns, List.splitBy_eq_iff]
  refine ⟨h.flatten_eq.symm, ?_, ?_, ?_⟩
  · intro hnil
    obtain ⟨run, hrun, hempty⟩ := List.mem_map.mp hnil
    exact h.ne_nil run hrun hempty
  · intro arcs harcs
    obtain ⟨run, hrun, rfl⟩ := List.mem_map.mp harcs
    refine (List.pairwise_of_forall_mem_list fun a ha b hb ↦ ?_).isChain
    rw [beq_iff_eq, h.target_eq run hrun a ha, h.target_eq run hrun b hb]
  · rw [List.isChain_map]
    refine h.chain.imp_of_mem_imp fun a b ha hb hne ↦ ⟨h.ne_nil a ha, h.ne_nil b hb, ?_⟩
    rw [beq_eq_false_iff_ne, h.target_eq a ha _ (List.getLast_mem _),
      h.target_eq b hb _ (List.head_mem _)]
    exact hne

theorem targets_sublist_flatten {runs : List Run} (hne : ∀ run ∈ runs, run.arcs ≠ [])
    (htarget : ∀ run ∈ runs, ∀ arc ∈ run.arcs, arc.target = run.target) :
    (runs.map Run.target).Sublist ((runs.map Run.arcs).flatten.map Arc.target) := by
  induction runs with
  | nil => exact List.Sublist.refl _
  | cons run runs ih =>
    obtain ⟨entry, arcs, harcs⟩ := List.exists_cons_of_ne_nil (hne run List.mem_cons_self)
    have hentry : entry.target = run.target :=
      htarget run List.mem_cons_self entry (harcs ▸ List.mem_cons_self)
    have hrest := ih (fun other hother ↦ hne other (List.mem_cons_of_mem _ hother))
      fun other hother ↦ htarget other (List.mem_cons_of_mem _ hother)
    rw [List.map_cons, List.map_cons, List.flatten_cons, List.map_append, harcs, List.map_cons,
      hentry, List.cons_append]
    exact (hrest.trans (List.sublist_append_right _ _)).cons_cons _

/-- The runs of a builder stand for the targets and values of the entries. -/
theorem Aggregation.map_runs (aggregation : Aggregation) (entries : List Arc) (key : Nat) :
    (aggregation.runs entries).map (fun run ↦
      (run.target, aggregation.merge (run.arcs.map (·.valueAt key)))) =
      aggregation.list entries key := by
  have hgrouped := groupedAs_group entries
  have hmap : (Run.group entries).map (fun run ↦
      (run.target, aggregation.merge (run.arcs.map (·.valueAt key)))) =
        (parallelRuns entries).filterMap fun run ↦
          run.head?.map fun entry ↦
            (entry.target, aggregation.merge (run.map (·.valueAt key))) := by
    rw [hgrouped.parallelRuns_eq, List.filterMap_map, ← List.filterMap_eq_map]
    refine List.filterMap_congr fun run hrun ↦ ?_
    obtain ⟨entry, arcs, harcs⟩ := List.exists_cons_of_ne_nil (hgrouped.ne_nil run hrun)
    have htarget := hgrouped.target_eq run hrun entry (harcs ▸ List.mem_cons_self)
    simp [harcs, htarget]
  cases aggregation with
  | keepAll =>
    rw [runs, list, List.map_map]
    rfl
  | single | sum | min | max | count => exact hmap

/-- The first of two parallel arcs keeps its value, which is not a number, with sign and payload. -/
example : Aggregation.list .single
    [⟨0, 1, #[0xfff8000000000001]⟩, ⟨0, 1, #[Float.toBits 2]⟩] 0 = [(1, 0xfff8000000000001)] := by
  decide

/-- The targets of the runs are some of the targets of the entries, in their order. -/
theorem Aggregation.targets_sublist (aggregation : Aggregation) (entries : List Arc) :
    ((aggregation.runs entries).map Run.target).Sublist (entries.map Arc.target) := by
  have hgrouped := groupedAs_group entries
  have hsub := targets_sublist_flatten hgrouped.ne_nil hgrouped.target_eq
  rw [hgrouped.flatten_eq] at hsub
  cases aggregation with
  | keepAll =>
    rw [runs, List.map_map]
    exact List.Sublist.refl _
  | single | sum | min | max | count => exact hsub

theorem Aggregation.mem_of_mem_runs {aggregation : Aggregation} {entries : List Arc} {run : Run}
    (h : run ∈ aggregation.runs entries) : ∀ arc ∈ run.arcs, arc ∈ entries := by
  have hgroup : ∀ run ∈ Run.group entries, ∀ arc ∈ run.arcs, arc ∈ entries := by
    intro run hrun arc harc
    rw [← (groupedAs_group entries).flatten_eq]
    exact List.mem_flatten.mpr ⟨run.arcs, List.mem_map_of_mem hrun, harc⟩
  cases aggregation with
  | keepAll =>
    obtain ⟨entry, hentry, rfl⟩ := List.mem_map.mp h
    intro arc harc
    rwa [List.mem_singleton.mp harc]
  | single | sum | min | max | count => exact hgroup run h

/-- No target is lost or made up by merging. -/
theorem Aggregation.mem_targets_iff {aggregation : Aggregation} {entries : List Arc}
    {target : Nat} :
    target ∈ (aggregation.runs entries).map Run.target ↔
      ∃ entry ∈ entries, entry.target = target := by
  constructor
  · intro htarget
    exact List.mem_map.mp ((aggregation.targets_sublist entries).subset htarget)
  · rintro ⟨entry, hentry, rfl⟩
    have hgroup : entry.target ∈ (Run.group entries).map Run.target := by
      have hgrouped := groupedAs_group entries
      rw [← hgrouped.flatten_eq, List.mem_flatten] at hentry
      obtain ⟨arcs, harcs, hentry⟩ := hentry
      obtain ⟨run, hrun, rfl⟩ := List.mem_map.mp harcs
      rw [hgrouped.target_eq run hrun entry hentry]
      exact List.mem_map_of_mem hrun
    cases aggregation with
    | keepAll =>
      rw [runs, List.map_map]
      exact List.mem_map_of_mem hentry
    | single | sum | min | max | count => exact hgroup

/-- The runs of the arcs that leave a node. -/
def referenceRuns (orientation : Orientation) (aggregation : Aggregation) (arcs : List Arc)
    (node : Nat) : List Run :=
  aggregation.runs (nodeEntries orientation arcs node)

/-- The list of a node of a graph, with the values of the key at a position. -/
def referenceList (orientation : Orientation) (aggregation : Aggregation) (arcs : List Arc)
    (node key : Nat) : List (Nat × ValueBits) :=
  aggregation.list (nodeEntries orientation arcs node) key

theorem mem_entries_iff {orientation : Orientation} {arcs : List Arc} {node : Nat} {entry : Arc} :
    entry ∈ nodeEntries orientation arcs node ↔
      entry.source = node ∧ ∃ arc ∈ arcs, entry ∈ orientation.entries arc := by
  rw [nodeEntries, List.mem_mergeSort, List.mem_filter, List.mem_flatMap, beq_iff_eq, and_comm]

/-- The targets of a node are sorted. -/
theorem pairwise_targets (orientation : Orientation) (aggregation : Aggregation) (arcs : List Arc)
    (node : Nat) :
    ((referenceRuns orientation aggregation arcs node).map Run.target).Pairwise (· ≤ ·) := by
  refine List.Pairwise.sublist (aggregation.targets_sublist _) ?_
  exact List.pairwise_map.mpr (pairwise_target_mergeSort _)

end PackedGraph
