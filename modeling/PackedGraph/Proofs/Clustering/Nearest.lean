import Mathlib
import PackedGraph.Clustering.Centroids
import PackedGraph.Proofs.Arithmetic.Ordering

/-!
# Nearest centroids

Distances that are numbers are in a linear order. The search for the nearest centroid of a point
therefore finds one that no other centroid is nearer than, and the first one of those.
-/

namespace PackedGraph

/-! ## The search for the nearest centroid -/

/-- No centroid is nearer to a point than that of a cluster, and none of those before is as near. -/
def IsFirstNearest (centroids : List (Point Float)) (point : Point Float) (cluster : Nat) : Prop :=
  let distance := fun i ↦ point.squaredDistance (centroids.getD i [])
  ∀ i < centroids.length, ¬ distance i < distance cluster ∧
    (i < cluster → ¬ distance i ≤ distance cluster)

/-- What the search has found among some centroids. -/
inductive Nearest.Leads (centroids : List (Point Float)) (point : Point Float) :
    Nearest Float → Prop
  | none : (∀ i < centroids.length,
      ¬ point.squaredDistance (centroids.getD i []) < 1.0 / 0.0) → Leads centroids point ⟨0, none⟩
  | some {cluster : Nat} : cluster < centroids.length →
      point.squaredDistance (centroids.getD cluster []) < 1.0 / 0.0 →
      IsFirstNearest centroids point cluster →
      Leads centroids point ⟨cluster, some (point.squaredDistance (centroids.getD cluster []))⟩

namespace Nearest.Leads

variable {centroids : List (Point Float)} {point centroid : Point Float} {nearest : Nearest Float}

theorem getD_append_of_lt {i : Nat} (hi : i < centroids.length) :
    (centroids ++ [centroid]).getD i [] = centroids.getD i [] :=
  List.getD_append _ _ _ _ hi

theorem getD_append_length : (centroids ++ [centroid]).getD centroids.length [] = centroid := by
  rw [List.getD_append_right _ _ _ _ le_rfl, Nat.sub_self, List.getD_cons_zero]

/-- A centroid that beats the leading one is nearer than it, and so than all those before. -/
theorem beaten (h : Leads centroids point nearest)
    (hbeats : nearest.isBeatenBy (point.squaredDistance centroid) = true) :
    Leads (centroids ++ [centroid]) point
      ⟨centroids.length, Option.some (point.squaredDistance centroid)⟩ := by
  have hbefore : point.squaredDistance centroid < 1.0 / 0.0 ∧ ∀ i < centroids.length,
      ¬ point.squaredDistance (centroids.getD i []) ≤ point.squaredDistance centroid := by
    cases h with
    | none hnone =>
      have hbelow := of_decide_eq_true hbeats
      exact ⟨hbelow, fun i hi hle ↦ hnone i hi (FloatOrder.lt_of_le_of_lt hle hbelow)⟩
    | some _ _ hfirst =>
      have hlt := of_decide_eq_true hbeats
      exact ⟨FloatOrder.lt_infinity_of_lt hlt,
        fun i hi hle ↦ (hfirst i hi).1 (FloatOrder.lt_of_le_of_lt hle hlt)⟩
  have hfirst : IsFirstNearest (centroids ++ [centroid]) point centroids.length := by
    intro i hi
    simp only [getD_append_length]
    rcases Nat.lt_succ_iff_lt_or_eq.mp (List.length_append ▸ hi) with hlt | rfl
    · simp only [getD_append_of_lt hlt]
      exact ⟨fun hnearer ↦ hbefore.2 i hlt (FloatOrder.le_of_lt hnearer),
        fun _ ↦ hbefore.2 i hlt⟩
    · simp only [getD_append_length]
      exact ⟨FloatOrder.lt_irrefl _, fun h ↦ absurd h (lt_irrefl _)⟩
  have hleads := Leads.some (by simp) (by simpa only [getD_append_length] using hbefore.1) hfirst
  rwa [getD_append_length] at hleads

/-- A centroid that does not beat the leading one changes nothing. -/
theorem kept (h : Leads centroids point nearest)
    (hkeeps : nearest.isBeatenBy (point.squaredDistance centroid) = false) :
    Leads (centroids ++ [centroid]) point nearest := by
  cases h with
  | none hnone =>
    have hfar := of_decide_eq_false hkeeps
    refine .none fun i hi ↦ ?_
    rcases Nat.lt_succ_iff_lt_or_eq.mp (List.length_append ▸ hi) with hlt | rfl
    · rw [getD_append_of_lt hlt]
      exact hnone i hlt
    · rw [getD_append_length]
      exact hfar
  | @some cluster hcluster hbelow hfirst =>
    have hfar := of_decide_eq_false hkeeps
    have hold : (centroids ++ [centroid]).getD cluster [] = centroids.getD cluster [] :=
      getD_append_of_lt hcluster
    rw [← hold] at hbelow ⊢
    refine .some (List.length_append ▸ Nat.lt_succ_of_lt hcluster) hbelow fun i hi ↦ ?_
    simp only [hold]
    rcases Nat.lt_succ_iff_lt_or_eq.mp (List.length_append ▸ hi) with hlt | rfl
    · rw [getD_append_of_lt hlt]
      exact hfirst i hlt
    · rw [getD_append_length]
      exact ⟨hfar, fun h ↦ absurd h hcluster.asymm⟩

theorem isFirstNearest (h : Leads centroids point nearest) :
    IsFirstNearest centroids point nearest.cluster := by
  cases h with
  | none hnone =>
    exact fun i hi ↦ ⟨fun hlt ↦ hnone i hi (FloatOrder.lt_infinity_of_lt hlt),
      fun hlt ↦ absurd hlt (Nat.not_lt_zero i)⟩
  | some _ _ hfirst => exact hfirst

end Nearest.Leads

/-- A point is assigned to the first of its nearest centroids. -/
theorem isFirstNearest_nearestCluster (centroids : List (Point Float)) (point : Point Float) :
    IsFirstNearest centroids point (nearestCluster centroids point) := by
  rw [nearestCluster]
  apply Nearest.Leads.isFirstNearest
  induction centroids using List.reverseRecOn with
  | nil => exact .none nofun
  | append_singleton centroids centroid ih =>
    rw [List.zipIdx_append, List.foldl_append]
    generalize centroids.zipIdx.foldl _ _ = nearest at ih ⊢
    simp only [List.zipIdx_singleton, List.foldl_cons, List.foldl_nil, Nat.zero_add]
    split_ifs with hbeats
    · exact ih.beaten hbeats
    · exact ih.kept (Bool.eq_false_iff.mpr hbeats)

end PackedGraph
