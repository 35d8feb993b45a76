import Mathlib
import PackedGraph.Proofs.Relation.Stored
import PackedGraph.View.Triangle

/-!
# Triangles of stored lists

On sorted lists the finder reports every triangle from its smallest node, once and in order,
wherever its cursor has been left.
-/

namespace PackedGraph

variable {block : Pages UInt8} {cursor : TargetCursor} {targets : List Nat}

/-! ## Merging a list with candidates -/

theorem mem_dropWhile_lt_iff {targets : List Nat} (hsorted : targets.Pairwise (· ≤ ·))
    {bound t : Nat} : t ∈ targets.dropWhile (· < bound) ↔ t ∈ targets ∧ bound ≤ t := by
  induction targets with
  | nil => simp
  | cons first targets ih =>
    rw [List.pairwise_cons] at hsorted
    by_cases hfirst : first < bound
    · rw [List.dropWhile_cons_of_pos (by simpa using hfirst), ih hsorted.2, List.mem_cons]
      constructor
      · rintro ⟨ht, hbound⟩
        exact ⟨.inr ht, hbound⟩
      · rintro ⟨rfl | ht, hbound⟩
        · omega
        · exact ⟨ht, hbound⟩
    · rw [List.dropWhile_cons_of_neg (by simpa using hfirst), List.mem_cons]
      constructor
      · rintro (rfl | ht)
        · exact ⟨.inl rfl, not_lt.mp hfirst⟩
        · exact ⟨.inr ht, (not_lt.mp hfirst).trans (hsorted.1 t ht)⟩
      · exact fun h ↦ h.1

theorem filter_mem_congr {as bs cs : List Nat} (h : ∀ c ∈ cs, c ∈ as ↔ c ∈ bs) :
    cs.filter (· ∈ as) = cs.filter (· ∈ bs) :=
  List.filter_congr fun c hc ↦ decide_eq_decide.mpr (h c hc)

theorem filter_mem_cons_of_lt {first : Nat} {rest cs : List Nat} (h : ∀ c ∈ cs, first < c) :
    cs.filter (· ∈ first :: rest) = cs.filter (· ∈ rest) := by
  apply filter_mem_congr
  intro c hc
  rw [List.mem_cons, or_iff_right (h c hc).ne']

/-- Nothing below the first element of a sorted list is in it. -/
theorem filter_mem_dropWhile {first : Nat} {rest : List Nat}
    (hsorted : (first :: rest).Pairwise (· ≤ ·)) (cs : List Nat) :
    (cs.dropWhile (· < first)).filter (· ∈ first :: rest) = cs.filter (· ∈ first :: rest) := by
  have htake : (cs.takeWhile (· < first)).filter (· ∈ first :: rest) = [] := by
    rw [List.filter_eq_nil_iff]
    intro c hc
    have hlt : c < first := by simpa using List.mem_takeWhile_imp hc
    rw [decide_eq_true_eq, List.mem_cons, not_or]
    refine ⟨hlt.ne, fun hrest ↦ ?_⟩
    exact absurd ((List.pairwise_cons.mp hsorted).1 c hrest) (not_le.mpr hlt)
  calc (cs.dropWhile (· < first)).filter (· ∈ first :: rest)
    _ = (cs.takeWhile (· < first)).filter (· ∈ first :: rest) ++
        (cs.dropWhile (· < first)).filter (· ∈ first :: rest) := by rw [htake, List.nil_append]
    _ = cs.filter (· ∈ first :: rest) := by
        rw [← List.filter_append, List.takeWhile_append_dropWhile]

/-- The order of triangles with the same smallest node. -/
def Triangle.Precedes (s t : Triangle) : Prop := s.b < t.b ∨ s.b = t.b ∧ s.c < t.c

theorem Triangle.Precedes.ne {s t : Triangle} (h : s.Precedes t) : s ≠ t := by
  rintro rfl
  rcases h with hlt | ⟨_, hlt⟩
  · exact lt_irrefl _ hlt
  · exact lt_irrefl _ hlt

/-- Elements below the smallest candidate are not candidates. -/
theorem filter_mem_of_sorted {candidate : Nat} {later : List Nat}
    (htargets : targets.Pairwise (· ≤ ·)) (hsorted : (candidate :: later).Pairwise (· < ·)) :
    (candidate :: later).filter (· ∈ targets) =
      (candidate :: later).filter (· ∈ targets.dropWhile (· < candidate)) := by
  apply filter_mem_congr
  intro c hc
  have hle : candidate ≤ c := by
    rcases List.mem_cons.mp hc with rfl | hlater
    · exact le_rfl
    · exact ((List.pairwise_cons.mp hsorted).1 c hlater).le
  rw [mem_dropWhile_lt_iff htargets, and_iff_left hle]

/-- Candidates below the first element of a sorted list are not in it. -/
theorem filter_mem_cons_of_head_lt {candidate target : Nat} {later rest : List Nat}
    (hrest : (target :: rest).Pairwise (· ≤ ·)) (hlt : candidate < target) :
    (candidate :: later).filter (· ∈ target :: rest) =
      (later.dropWhile (· < target)).filter (· ∈ target :: rest) := by
  have hskip := filter_mem_dropWhile hrest (candidate :: later)
  rw [List.dropWhile_cons_of_pos (by simpa using hlt)] at hskip
  exact hskip.symm

theorem lt_of_mem_dropWhile {target next : Nat} {later after : List Nat}
    (hsorted : later.Pairwise (· < ·)) (hdrop : later.dropWhile (· < target) = next :: after)
    (hne : target ≠ next) : ∀ c ∈ next :: after, target < c := by
  have hle {c : Nat} (hc : c ∈ next :: after) : target ≤ c := by
    rw [← hdrop] at hc
    exact ((mem_dropWhile_lt_iff (hsorted.imp Nat.le_of_lt)).mp hc).2
  have hafter := hsorted.sublist (List.dropWhile_sublist (· < target))
  rw [hdrop, List.pairwise_cons] at hafter
  have hnext : target < next := lt_of_le_of_ne (hle List.mem_cons_self) hne
  intro c hc
  rcases List.mem_cons.mp hc with rfl | hc
  · exact hnext
  · exact hnext.trans (hafter.1 c hc)

namespace TriangleFinder

/-- Merging finds the candidates that are in the list. Whatever the cursor skips is smaller than
all candidates that are left. -/
theorem merge_eq (h : cursor.Before block targets) {candidates : List Nat}
    (hsorted : candidates.Pairwise (· < ·)) :
    ∃ moved, merge block cursor candidates = (moved, candidates.filter (· ∈ targets), .ok ()) := by
  induction hlength : candidates.length using Nat.strong_induction_on
    generalizing cursor targets candidates with
  | _ length ih =>
    cases candidates with
    | nil => exact ⟨cursor, by rw [merge]; rfl⟩
    | cons candidate later =>
      have htargets := (List.pairwise_cons.mp h.sorted).2
      have hlater := List.pairwise_cons.mp hsorted
      rw [List.length_cons] at hlength
      obtain ⟨moved, hadvance, hmoved⟩ := TargetCursor.advance_of_before h candidate
      have hrest := htargets.sublist (List.dropWhile_sublist (· < candidate))
      rw [filter_mem_of_sorted htargets hsorted]
      generalize hdrop : targets.dropWhile (· < candidate) = rest at hadvance hmoved hrest ⊢
      cases rest with
      | nil =>
        refine ⟨moved, ?_⟩
        rw [merge, hadvance]
        simp
      | cons target rest =>
        rw [List.head?_cons] at hadvance
        rw [List.tail_cons] at hmoved
        rw [merge, hadvance]
        simp only
        by_cases htarget : target = candidate
        · obtain ⟨final, hmerge⟩ := ih _ (by omega) hmoved hlater.2 rfl
          refine ⟨final, ?_⟩
          rw [if_pos htarget, hmerge, htarget, List.filter_cons_of_pos (by simp),
            filter_mem_cons_of_lt hlater.1]
        · have hmem : target ∈ targets.dropWhile (· < candidate) := hdrop ▸ List.mem_cons_self
          have hle : candidate ≤ target := ((mem_dropWhile_lt_iff htargets).mp hmem).2
          rw [if_neg htarget,
            filter_mem_cons_of_head_lt hrest (lt_of_le_of_ne hle (Ne.symm htarget))]
          split
          · next hnil =>
            rw [hnil]
            exact ⟨moved, rfl⟩
          · next next after hcons =>
            have hshorter := List.length_dropWhile_le (· < target) later
            have hafter := hlater.2.sublist (List.dropWhile_sublist (· < target))
            rw [hcons] at hshorter hafter ⊢
            rw [List.length_cons] at hshorter
            by_cases hequal : target = next
            · subst hequal
              have habove := List.pairwise_cons.mp hafter
              obtain ⟨final, hmerge⟩ := ih _ (by omega) hmoved habove.2 rfl
              refine ⟨final, ?_⟩
              rw [if_pos rfl, hmerge, List.filter_cons_of_pos (by simp),
                filter_mem_cons_of_lt habove.1]
            · obtain ⟨final, hmerge⟩ := ih _ (by rw [List.length_cons]; omega) hmoved hafter rfl
              refine ⟨final, ?_⟩
              rw [if_neg hequal, hmerge,
                filter_mem_cons_of_lt (lt_of_mem_dropWhile hlater.2 hcons hequal)]

/-! ## Pivots -/

/-- A bound of a decreasing list that is not its head is not in it. -/
theorem ne_of_mem_of_decreasing {pivot : List Nat} {p bound : Nat} (hpivot : pivot.Pairwise (· > ·))
    (hp : p ∈ pivot) (hle : ∀ q ∈ pivot, q ≤ bound) (hhead : pivot.head? ≠ some bound) :
    p ≠ bound := by
  rintro rfl
  cases pivot with
  | nil => exact List.not_mem_nil hp
  | cons first pivot =>
    rcases List.mem_cons.mp hp with rfl | hp
    · exact hhead rfl
    · have hlt := (List.pairwise_cons.mp hpivot).1 p hp
      exact absurd hlt (not_lt.mpr (hle first List.mem_cons_self))

/-- A pivot in decreasing order after one more target, which is not below it. -/
def extended (small : Nat → Prop) [DecidablePred small] (target : Nat) (pivot : List Nat) :
    List Nat :=
  if pivot.head? = some target then pivot
  else if small target then target :: pivot
  else pivot

section Pivots

variable (small : Nat → Prop) [DecidablePred small] {pivot : List Nat} {target : Nat}

theorem mem_extended_iff (t : Nat) :
    t ∈ extended small target pivot ↔ t ∈ pivot ∨ t = target ∧ small target := by
  unfold extended
  split_ifs with hhead hsmall
  · rw [or_iff_left_of_imp]
    rintro ⟨rfl, _⟩
    exact List.mem_of_mem_head? hhead
  · rw [List.mem_cons, and_iff_left hsmall, or_comm]
  · rw [or_iff_left fun h ↦ hsmall h.2]

theorem pairwise_extended (hpivot : pivot.Pairwise (· > ·)) (hle : ∀ p ∈ pivot, p ≤ target) :
    (extended small target pivot).Pairwise (· > ·) := by
  unfold extended
  split_ifs with hhead
  · exact hpivot
  · refine List.pairwise_cons.mpr ⟨fun p hp ↦ ?_, hpivot⟩
    exact lt_of_le_of_ne (hle p hp) (ne_of_mem_of_decreasing hpivot hp hle hhead)
  · exact hpivot

theorem pivotUpTo_of_advance (finder : TriangleFinder) {bound : Nat} (count : Nat)
    {moved : TargetCursor}
    (hadvance : cursor.advance finder.topology.block bound = (moved, .ok (some target)))
    (hsmall : finder.isSmall target = .ok (decide (small target))) :
    finder.pivotUpTo bound (count + 1) cursor pivot =
      finder.pivotUpTo bound count moved (extended small target pivot) := by
  rw [pivotUpTo, hadvance, extended]
  simp only
  by_cases hhead : pivot.head? = some target
  · rw [if_pos hhead, if_pos hhead]
  · rw [if_neg hhead, if_neg hhead, hsmall]
    by_cases htarget : small target
    · rw [if_pos htarget, decide_eq_true htarget]
    · rw [if_neg htarget, decide_eq_false htarget]

/-- Reading a pivot adds the targets that are large enough and of small degree, each of them once.
The pivot read so far is in decreasing order, and not above what is left. -/
theorem pivotUpTo_eq (finder : TriangleFinder) (bound : Nat) {count : Nat}
    (h : cursor.Before finder.topology.block targets) (hcount : targets.length ≤ count)
    (hpivot : pivot.Pairwise (· > ·)) (hle : ∀ p ∈ pivot, ∀ t ∈ targets, p ≤ t)
    (hsmall : ∀ t ∈ targets, finder.isSmall t = .ok (decide (small t))) :
    ∃ moved found, finder.pivotUpTo bound count cursor pivot = (moved, .ok found) ∧
      found.Pairwise (· > ·) ∧
      ∀ t, t ∈ found ↔ t ∈ pivot ∨ t ∈ targets ∧ bound ≤ t ∧ small t := by
  induction count generalizing cursor targets pivot with
  | zero =>
    have hnil : targets = [] := List.length_eq_zero_iff.mp (Nat.le_zero.mp hcount)
    subst hnil
    exact ⟨cursor, pivot, rfl, hpivot, by simp⟩
  | succ count ih =>
    have htargets := (List.pairwise_cons.mp h.sorted).2
    have hmem := @mem_dropWhile_lt_iff targets htargets bound
    have hlength := List.length_dropWhile_le (· < bound) targets
    have hsorted := htargets.sublist (List.dropWhile_sublist (· < bound))
    obtain ⟨moved, hadvance, hmoved⟩ := TargetCursor.advance_of_before h bound
    generalize targets.dropWhile (· < bound) = left at hadvance hmoved hmem hlength hsorted
    cases left with
    | nil =>
      rw [pivotUpTo, hadvance]
      refine ⟨moved, pivot, rfl, hpivot, fun t ↦ ?_⟩
      rw [or_iff_left]
      rintro ⟨ht, hbound, _⟩
      exact List.not_mem_nil (hmem.mpr ⟨ht, hbound⟩)
    | cons target rest =>
      rw [List.length_cons] at hlength
      have htarget := hmem.mp List.mem_cons_self
      have hrest : ∀ t ∈ rest, t ∈ targets ∧ bound ≤ t := fun t ht ↦
        hmem.mp (List.mem_cons_of_mem _ ht)
      have hleTarget : ∀ p ∈ pivot, p ≤ target := fun p hp ↦ hle p hp target htarget.1
      have hleRest : ∀ p ∈ extended small target pivot, ∀ t ∈ rest, p ≤ t := by
        intro p hp t ht
        rcases (mem_extended_iff small p).mp hp with hold | ⟨rfl, _⟩
        · exact hle p hold t (hrest t ht).1
        · exact (List.pairwise_cons.mp hsorted).1 t ht
      obtain ⟨final, found, hrun, hpairwise, hiff⟩ := ih hmoved (by rw [List.tail_cons]; omega)
        (pairwise_extended small hpivot hleTarget) hleRest fun t ht ↦ hsmall t (hrest t ht).1
      rw [pivotUpTo_of_advance small finder count hadvance (hsmall target htarget.1)]
      refine ⟨final, found, hrun, hpairwise, fun t ↦ ?_⟩
      -- The targets that are left are the first of them and what is read later.
      have ht := @hmem t
      rw [List.mem_cons] at ht
      rw [hiff, mem_extended_iff, List.tail_cons]
      grind

end Pivots

/-! ## Closing triangles -/

section Lists

variable {nodeCount : Nat} {list : Nat → List Nat}

/-- The triangles of a node with two nodes of a pivot. -/
def closed (list : Nat → List Nat) (a : Nat) : List Nat → List Triangle
  | [] => []
  | b :: candidates =>
    (candidates.filter (· ∈ list b)).map (Triangle.mk a b) ++ closed list a candidates

theorem closeUp_eq {topology : Topology}
    (h : topology.Stores ((List.range nodeCount).map list)) (a : Nat) (cursor : TargetCursor)
    {pivot : List Nat} (hsorted : pivot.Pairwise (· < ·)) (hlt : ∀ b ∈ pivot, b < nodeCount) :
    ∃ moved, closeUp topology a cursor pivot = (moved, closed list a pivot, .ok ()) := by
  induction pivot generalizing cursor with
  | nil => exact ⟨cursor, rfl⟩
  | cons b candidates ih =>
    rw [List.pairwise_cons] at hsorted
    obtain ⟨moved, hmove, hmoved⟩ :=
      h.moveTo cursor (getElem?_map_range (hlt b List.mem_cons_self))
    obtain ⟨merged, hmerge⟩ := merge_eq hmoved hsorted.2
    obtain ⟨final, hclose⟩ := ih merged hsorted.2 fun c hc ↦ hlt c (List.mem_cons_of_mem _ hc)
    refine ⟨final, ?_⟩
    rw [closeUp, hmove]
    simp only [hmerge, hclose]
    rfl

theorem mem_closed_iff {a : Nat} {pivot : List Nat} (hsorted : pivot.Pairwise (· < ·))
    {t : Triangle} :
    t ∈ closed list a pivot ↔
      t.a = a ∧ t.b ∈ pivot ∧ t.c ∈ pivot ∧ t.b < t.c ∧ t.c ∈ list t.b := by
  induction pivot with
  | nil => simp [closed]
  | cons b candidates ih =>
    rw [List.pairwise_cons] at hsorted
    rw [closed, List.mem_append, List.mem_map, ih hsorted.2]
    constructor
    · rintro (⟨c, hc, rfl⟩ | ⟨ha, hb, hc, hlt, hlist⟩)
      · rw [List.mem_filter, decide_eq_true_eq] at hc
        exact ⟨rfl, List.mem_cons_self, List.mem_cons_of_mem _ hc.1, hsorted.1 c hc.1, hc.2⟩
      · exact ⟨ha, List.mem_cons_of_mem _ hb, List.mem_cons_of_mem _ hc, hlt, hlist⟩
    · rintro ⟨ha, hb, hc, hlt, hlist⟩
      have hcMem : t.c ∈ candidates := by
        rcases List.mem_cons.mp hc with heq | hc
        · rcases List.mem_cons.mp hb with heq' | hb
          · omega
          · have := hsorted.1 t.b hb
            omega
        · exact hc
      rcases List.mem_cons.mp hb with heq | hb
      · left
        refine ⟨t.c, ?_, ?_⟩
        · rw [List.mem_filter, decide_eq_true_eq]
          exact ⟨hcMem, heq ▸ hlist⟩
        · rw [← ha, ← heq]
      · exact .inr ⟨ha, hb, hcMem, hlt, hlist⟩

theorem pairwise_closed {a : Nat} {pivot : List Nat} (hsorted : pivot.Pairwise (· < ·)) :
    (closed list a pivot).Pairwise Triangle.Precedes := by
  induction pivot with
  | nil => exact .nil
  | cons b candidates ih =>
    rw [List.pairwise_cons] at hsorted
    rw [closed, List.pairwise_append]
    refine ⟨?_, ih hsorted.2, ?_⟩
    · rw [List.pairwise_map]
      exact (hsorted.2.filter _).imp fun hlt ↦ .inr ⟨rfl, hlt⟩
    · intro s hs t ht
      obtain ⟨c, _, rfl⟩ := List.mem_map.mp hs
      exact .inl (hsorted.1 t.b ((mem_closed_iff hsorted.2).mp ht).2.1)

/-- The triangles that a finder is to report: their nodes are in increasing order, adjacent to each
other, and of small degree. -/
structure Reports (list : Nat → List Nat) (maxDegree : Nat) (t : Triangle) : Prop where
  lt_b : t.a < t.b
  lt_c : t.b < t.c
  b_mem : t.b ∈ list t.a
  c_mem : t.c ∈ list t.a
  c_mem_b : t.c ∈ list t.b
  degree_a : (list t.a).length ≤ maxDegree
  degree_b : (list t.b).length ≤ maxDegree
  degree_c : (list t.c).length ≤ maxDegree

variable {finder : TriangleFinder}

theorem isSmall_eq (h : finder.topology.Stores ((List.range nodeCount).map list)) {node : Nat}
    (hnode : node < nodeCount) :
    finder.isSmall node = .ok (decide ((list node).length ≤ finder.maxDegree)) := by
  rw [isSmall, h.indexed.degree_eq (getElem?_map_range hnode)]

/-- The pivot of a node: its larger neighbours of small degree, in increasing order. -/
theorem pivot_eq (h : finder.topology.Stores ((List.range nodeCount).map list)) {a : Nat}
    (ha : a < nodeCount) (hlist : ∀ t ∈ list a, t < nodeCount) :
    ∃ moved found, finder.pivot a = (moved, .ok found) ∧ found.Pairwise (· < ·) ∧
      ∀ t, t ∈ found ↔ t ∈ list a ∧ a < t ∧ (list t).length ≤ finder.maxDegree := by
  obtain ⟨cursor, hmove, hbefore⟩ := h.moveTo finder.cursor (getElem?_map_range ha)
  obtain ⟨moved, found, hrun, hpairwise, hiff⟩ := pivotUpTo_eq
    (fun t ↦ (list t).length ≤ finder.maxDegree) finder (a + 1) hbefore hbefore.remaining_eq.ge .nil
    nofun fun t ht ↦ isSmall_eq h (hlist t ht)
  refine ⟨moved, found.reverse, ?_, List.pairwise_reverse.mpr hpairwise, fun t ↦ ?_⟩
  · rw [pivot, hmove]
    simp only [hrun]
    rfl
  · rw [List.mem_reverse, hiff, or_iff_right List.not_mem_nil, Nat.succ_le_iff]

/-- A finder reports the triangles of a node in order, and only its cursor changes. -/
theorem find_eq (h : finder.topology.Stores ((List.range nodeCount).map list)) {a : Nat}
    (ha : a < nodeCount) (hlist : ∀ t ∈ list a, t < nodeCount) :
    ∃ cursor found, finder.find a = ({ finder with cursor }, found, .ok ()) ∧
      found.Pairwise Triangle.Precedes ∧
      ∀ t, t ∈ found ↔ t.a = a ∧ Reports list finder.maxDegree t := by
  rw [find, isSmall_eq h ha]
  by_cases hsmall : (list a).length ≤ finder.maxDegree
  · obtain ⟨moved, pivot, hpivot, hsorted, hmem⟩ := pivot_eq h ha hlist
    obtain ⟨final, hclose⟩ := closeUp_eq h a moved hsorted fun b hb ↦ hlist b ((hmem b).mp hb).1
    refine ⟨final, closed list a pivot, ?_, pairwise_closed hsorted, fun t ↦ ?_⟩
    · simp only [decide_eq_true hsmall, hpivot, hclose]
    · rw [mem_closed_iff hsorted, hmem, hmem]
      constructor
      · rintro ⟨rfl, ⟨hb, hab, hbSmall⟩, ⟨hc, _, hcSmall⟩, hbc, hclosed⟩
        exact ⟨rfl, hab, hbc, hb, hc, hclosed, hsmall, hbSmall, hcSmall⟩
      · rintro ⟨rfl, ht⟩
        exact ⟨rfl, ⟨ht.b_mem, ht.lt_b, ht.degree_b⟩,
          ⟨ht.c_mem, ht.lt_b.trans ht.lt_c, ht.degree_c⟩, ht.lt_c, ht.c_mem_b⟩
  · refine ⟨finder.cursor, [], ?_, .nil, fun t ↦ ?_⟩
    · simp only [decide_eq_false hsmall]
    · simp only [List.not_mem_nil, false_iff, not_and]
      rintro rfl ht
      exact hsmall ht.degree_a

/-! ## Enumerating triangles -/

/-- The finder after it has been used for some nodes, whether they exist or not. -/
def after (finder : TriangleFinder) (nodes : List Nat) : TriangleFinder :=
  nodes.foldl (fun finder a ↦ (finder.find a).1) finder

/-- The triangles of several nodes, up to the first failure. -/
def findAll (finder : TriangleFinder) :
    List Nat → TriangleFinder × List Triangle × Except ReadError Unit
  | [] => (finder, [], .ok ())
  | a :: nodes =>
    match finder.find a with
    | (finder, found, .error error) => (finder, found, .error error)
    | (finder, found, .ok ()) =>
      let (finder, others, outcome) := finder.findAll nodes
      (finder, found ++ others, outcome)

theorem find_cursor (finder : TriangleFinder) (a : Nat) :
    ∃ cursor, (finder.find a).1 = { finder with cursor } := by
  rw [find]
  cases finder.isSmall a with
  | error error => exact ⟨finder.cursor, rfl⟩
  | ok small =>
    cases small with
    | false => exact ⟨finder.cursor, rfl⟩
    | true =>
      obtain ⟨cursor, outcome⟩ := finder.pivot a
      cases outcome with
      | error error => exact ⟨cursor, rfl⟩
      | ok pivot => exact ⟨_, rfl⟩

theorem after_cursor (finder : TriangleFinder) (nodes : List Nat) :
    ∃ cursor, finder.after nodes = { finder with cursor } := by
  induction nodes generalizing finder with
  | nil => exact ⟨finder.cursor, rfl⟩
  | cons a nodes ih =>
    obtain ⟨moved, hmoved⟩ := finder.find_cursor a
    obtain ⟨cursor, hcursor⟩ := ih (finder.find a).1
    refine ⟨cursor, ?_⟩
    rw [after, List.foldl_cons, ← after, hcursor, hmoved]

theorem findAll_eq (h : finder.topology.Stores ((List.range nodeCount).map list))
    (hlist : ∀ a < nodeCount, ∀ t ∈ list a, t < nodeCount) {nodes : List Nat}
    (hnodes : ∀ a ∈ nodes, a < nodeCount) (hnodup : nodes.Nodup) :
    ∃ cursor all, finder.findAll nodes = ({ finder with cursor }, all, .ok ()) ∧ all.Nodup ∧
      ∀ t, t ∈ all ↔ t.a ∈ nodes ∧ Reports list finder.maxDegree t := by
  induction nodes generalizing finder with
  | nil => exact ⟨finder.cursor, [], rfl, .nil, by simp⟩
  | cons a nodes ih =>
    rw [List.nodup_cons] at hnodup
    have ha := hnodes a List.mem_cons_self
    obtain ⟨moved, found, hfind, hpairwise, hfound⟩ := find_eq h ha (hlist a ha)
    have hmoved : TriangleFinder.topology { finder with cursor := moved }
      |>.Stores ((List.range nodeCount).map list) := h
    obtain ⟨cursor, others, hall, hothersNodup, hothers⟩ :=
      ih hmoved (fun b hb ↦ hnodes b (List.mem_cons_of_mem _ hb)) hnodup.2
    refine ⟨cursor, found ++ others, ?_, ?_, fun t ↦ ?_⟩
    · rw [findAll, hfind]
      simp only [hall]
    · have hfoundNodup : found.Nodup := hpairwise.imp Triangle.Precedes.ne
      apply hfoundNodup.append hothersNodup
      intro t ht ht'
      have hta := ((hfound t).mp ht).1
      exact hnodup.1 (hta ▸ ((hothers t).mp ht').1)
    · rw [List.mem_append, hfound, hothers, List.mem_cons]
      tauto

end Lists

end TriangleFinder

end PackedGraph
