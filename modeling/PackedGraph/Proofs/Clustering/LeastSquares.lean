import Mathlib
import PackedGraph.Proofs.Clustering.Concurrency

/-!
# Least squares

In exact arithmetic, the sum of the squared distances of some points from a place is smallest at the
mean of the points. The search for the nearest of some centroids finds one that is nearest, and the
mean of a cluster is assembled from the sums of the ranges without a loss.
-/

namespace PackedGraph

/-- Rational numbers, on which all operations but square roots are exact. -/
instance : Scalar ℚ where
  zero := 0
  emptySum := 0
  add := (· + ·)
  sub := (· - ·)
  mul := (· * ·)
  div := (· / ·)
  ofNat n := n
  sqrt := Rat.sqrt
  lt a b := a < b
  isBelowInfinity _ := true

/-! ## Sums -/

namespace Scalar

theorem total_eq_sum (values : List ℚ) : total values = values.sum :=
  List.sum_eq_foldl.symm

/-- There is one sum of some numbers, however they are added up. -/
theorem AddsUpTo.eq_multiset_sum {values : Multiset ℚ} {a : ℚ} (h : AddsUpTo values a) :
    a = values.sum := by
  induction h with
  | zero => rfl
  | add_value value _ ih =>
    rw [Multiset.sum_cons, add_comm, ← ih]
    rfl
  | add _ _ hleft hright =>
    rw [Multiset.sum_add, ← hleft, ← hright]
    rfl
  | emptySum_add _ ih => exact (zero_add _).trans ih

end Scalar

/-- The squared distance of points is the sum of the squared differences of their coordinates. -/
theorem Point.squaredDistance_eq {a b : Point ℚ} {dimension : Nat} (ha : a.length = dimension)
    (hb : b.length = dimension) :
    a.squaredDistance b = ∑ d ∈ Finset.range dimension, (a.getD d 0 - b.getD d 0) ^ 2 := by
  rw [squaredDistance, Scalar.total_eq_sum]
  induction dimension generalizing a b with
  | zero =>
    rw [List.length_eq_zero_iff.mp ha]
    rfl
  | succ dimension ih =>
    cases a with
    | nil => exact absurd ha nofun
    | cons x a =>
      cases b with
      | nil => exact absurd hb nofun
      | cons y b =>
        have hrest := ih (Nat.succ.inj ha) (Nat.succ.inj hb)
        have hfirst : Scalar.mul (Scalar.sub x y) (Scalar.sub x y) = (x - y) ^ 2 := (sq _).symm
        rw [Finset.sum_range_succ', List.zipWith_cons_cons, List.sum_cons, hrest, hfirst, add_comm]
        rfl

/-! ## Nearest centroids -/

/-- What the search has found among some centroids is one of them, which is nearest. -/
def Nearest.IsAmong (nearest : Nearest ℚ) (centroids : List (Point ℚ)) (point : Point ℚ) : Prop :=
  ∃ centroid, centroids[nearest.cluster]? = some centroid ∧
    nearest.distance = some (point.squaredDistance centroid) ∧
    ∀ other ∈ centroids, point.squaredDistance centroid ≤ point.squaredDistance other

theorem Nearest.isAmong_singleton (centroid point : Point ℚ) :
    IsAmong ⟨0, some (point.squaredDistance centroid)⟩ [centroid] point :=
  ⟨centroid, rfl, rfl, fun _ hother ↦ List.mem_singleton.mp hother ▸ le_rfl⟩

variable {nearest : Nearest ℚ} {centroids : List (Point ℚ)} {point : Point ℚ}

theorem Nearest.IsAmong.append (h : nearest.IsAmong centroids point) (centroid : Point ℚ) :
    Nearest.IsAmong (if nearest.isBeatenBy (point.squaredDistance centroid) then
      ⟨centroids.length, some (point.squaredDistance centroid)⟩ else nearest)
      (centroids ++ [centroid]) point := by
  obtain ⟨closest, hplace, hdistance, hclosest⟩ := h
  have hbeaten : nearest.isBeatenBy (point.squaredDistance centroid) =
      decide (point.squaredDistance centroid < point.squaredDistance closest) := by
    rw [isBeatenBy, hdistance]
    rfl
  simp only [hbeaten, decide_eq_true_eq]
  split_ifs with hlt
  · refine ⟨centroid, List.getElem?_concat_length, rfl, ?_⟩
    rw [List.forall_mem_append, List.forall_mem_singleton]
    exact ⟨fun other hother ↦ hlt.le.trans (hclosest other hother), le_rfl⟩
  · refine ⟨closest, ?_, hdistance, ?_⟩
    · rw [List.getElem?_append_left (List.getElem?_eq_some_iff.mp hplace).1, hplace]
    · rw [List.forall_mem_append, List.forall_mem_singleton]
      exact ⟨hclosest, not_lt.mp hlt⟩

theorem Nearest.IsAmong.exists_closest (h : nearest.IsAmong centroids point) :
    ∃ centroid, centroids[nearest.cluster]? = some centroid ∧
      ∀ other ∈ centroids, point.squaredDistance centroid ≤ point.squaredDistance other := by
  obtain ⟨centroid, hplace, _, hclosest⟩ := h
  exact ⟨centroid, hplace, hclosest⟩

/-- The search for the nearest centroid finds one that is nearest. -/
theorem exists_nearestCluster (hne : centroids ≠ []) (point : Point ℚ) :
    ∃ centroid, centroids[nearestCluster centroids point]? = some centroid ∧
      ∀ other ∈ centroids, point.squaredDistance centroid ≤ point.squaredDistance other := by
  rw [nearestCluster]
  apply Nearest.IsAmong.exists_closest
  induction centroids using List.reverseRecOn with
  | nil => exact absurd rfl hne
  | append_singleton centroids centroid ih =>
    rw [List.zipIdx_append, List.foldl_append]
    simp only [List.zipIdx_singleton, List.foldl_cons, List.foldl_nil, Nat.zero_add]
    rcases eq_or_ne centroids [] with rfl | hsome
    · exact Nearest.isAmong_singleton centroid point
    · exact (ih hsome).append centroid

/-! ## Means -/

/-- The mean of some numbers, one for each node. -/
def mean (nodes : Finset Nat) (f : Nat → ℚ) : ℚ := (∑ node ∈ nodes, f node) / nodes.card

/-- The differences from the mean cancel out. -/
theorem sum_sub_mean (nodes : Finset Nat) (f : Nat → ℚ) :
    ∑ node ∈ nodes, (f node - mean nodes f) = 0 := by
  rcases nodes.eq_empty_or_nonempty with rfl | hne
  · rfl
  · have hcard : (nodes.card : ℚ) ≠ 0 := Nat.cast_ne_zero.mpr hne.card_pos.ne'
    rw [Finset.sum_sub_distrib, Finset.sum_const, nsmul_eq_mul, mean, mul_div_cancel₀ _ hcard,
      sub_self]

/-- Away from the mean, the sum of the squared differences grows by the square of the distance to
it, once for each node. -/
theorem sum_sq_sub (nodes : Finset Nat) (f : Nat → ℚ) (x : ℚ) :
    ∑ node ∈ nodes, (f node - x) ^ 2 =
      ∑ node ∈ nodes, (f node - mean nodes f) ^ 2 + nodes.card * (mean nodes f - x) ^ 2 := by
  calc
    ∑ node ∈ nodes, (f node - x) ^ 2 = ∑ node ∈ nodes, ((f node - mean nodes f) ^ 2 +
        2 * (mean nodes f - x) * (f node - mean nodes f) + (mean nodes f - x) ^ 2) := by
      apply Finset.sum_congr rfl
      intro node _
      ring
    _ = ∑ node ∈ nodes, (f node - mean nodes f) ^ 2 +
        2 * (mean nodes f - x) * ∑ node ∈ nodes, (f node - mean nodes f) +
        nodes.card * (mean nodes f - x) ^ 2 := by
      rw [Finset.sum_add_distrib, Finset.sum_add_distrib, ← Finset.mul_sum, Finset.sum_const,
        nsmul_eq_mul]
    _ = ∑ node ∈ nodes, (f node - mean nodes f) ^ 2 + nodes.card * (mean nodes f - x) ^ 2 := by
      rw [sum_sub_mean, mul_zero, add_zero]

/-- The sum of the squared differences of some numbers is smallest from their mean. -/
theorem sum_sq_sub_mean_le (nodes : Finset Nat) (f : Nat → ℚ) (x : ℚ) :
    ∑ node ∈ nodes, (f node - mean nodes f) ^ 2 ≤ ∑ node ∈ nodes, (f node - x) ^ 2 := by
  rw [sum_sq_sub nodes f x]
  apply le_add_of_nonneg_right
  exact mul_nonneg (Nat.cast_nonneg _) (sq_nonneg _)

/-- The nodes of a cluster among the first ones. -/
def clusterNodes (community : Nat → Nat) (count cluster : Nat) : Finset Nat :=
  {node ∈ Finset.range count | community node = cluster}

section Clusters

variable {community : Nat → Nat} {count cluster : Nat} {nodes : List Nat} {ranges : List NodeRange}

theorem coe_members (hnodes : nodes.Perm (List.range count)) (community : Nat → Nat)
    (cluster : Nat) :
    (members community cluster nodes : Multiset Nat) =
      (clusterNodes community count cluster).val := by
  have hmembers : (members community cluster nodes).Perm
      ((List.range count).filter (community · = cluster)) := by
    simpa [members, beq_eq_decide] using hnodes.filter (community · == cluster)
  exact Multiset.coe_eq_coe.mpr hmembers

theorem members_eq_nil_iff (hnodes : nodes.Perm (List.range count)) :
    members community cluster nodes = [] ↔ clusterNodes community count cluster = ∅ := by
  rw [← Finset.val_eq_zero, ← coe_members hnodes, Multiset.coe_eq_zero]

/-- The centroid of a cluster with nodes is moved to the mean of the coordinates of its nodes. -/
theorem clusterMean_eq_mean {point : Nat → Point ℚ}
    (hnodes : (ranges.flatMap NodeRange.nodes).Perm (List.range count))
    (hne : members community cluster (ranges.flatMap NodeRange.nodes) ≠ []) (d : Nat) :
    clusterMean point community ranges cluster d =
      mean (clusterNodes community count cluster) fun node ↦ (point node).getD d 0 := by
  have htotal : Scalar.total (ranges.map fun range ↦
      coordinateSum point d (members community cluster range.nodes)) =
        ∑ node ∈ clusterNodes community count cluster, (point node).getD d 0 := by
    rw [(addsUpTo_total_coordinateSum point d rfl hne).eq_multiset_sum, Finset.sum,
      ← coe_members hnodes]
    rfl
  have hsize : (members community cluster (ranges.flatMap NodeRange.nodes)).length =
      (clusterNodes community count cluster).card := by
    rw [Finset.card, ← coe_members hnodes, Multiset.coe_card]
  rw [clusterMean, htotal, hsize]
  rfl

end Clusters

end PackedGraph
