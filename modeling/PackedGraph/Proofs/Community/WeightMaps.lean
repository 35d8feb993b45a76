import Mathlib
import PackedGraph.Community.Conductance
import PackedGraph.Proofs.Arithmetic.ExactSums
import PackedGraph.Proofs.View.Reading

/-!
# Weights by community

A relationship between nodes with communities is internal to a community or leaves it. A map
accounts for some nodes if it has an entry for each of their communities, with totals of the weights
of its relationships. Adding the entries of one map to another joins the nodes that they account
for.
-/

namespace PackedGraph

variable {R : Type}

/-- The community of a node, if it has one that can be read. -/
def Column.community (column : Column) (node : Nat) : Option Int :=
  (column.longValue node).toOption.join

/-! ## Relationships -/

/-- A relationship between two nodes, each of which has a community. -/
structure AssignedArc where
  source : Int
  target : Int
  weight : Float

/-- Where the relationships of a community lead. -/
inductive Side where
  | internal
  | external

def CommunityWeights.on (side : Side) (weights : CommunityWeights R) : R :=
  match side with
  | .internal => weights.internal
  | .external => weights.external

namespace AssignedArc

/-- The relationships from a node to nodes with a community, if it has one itself. -/
def fromNode (view : View) (column : Column) (node : Nat) : List AssignedArc :=
  (column.community node).elim [] fun source ↦
    (view.valuedTargets node .one).filterMap fun (target, value) ↦
      (column.community target).map fun target ↦ ⟨source, target, Float.ofBits value⟩

/-- The relationships from some nodes, between nodes with communities. -/
def fromNodes (view : View) (column : Column) (nodes : List Nat) : List AssignedArc :=
  nodes.flatMap (fromNode view column)

/-- A relationship starts in a community and ends on a side of it. -/
def isOn (side : Side) (community : Int) (arc : AssignedArc) : Bool :=
  match side with
  | .internal => arc.source = community && arc.target = community
  | .external => arc.source = community && arc.target ≠ community

theorem source_eq_of_isOn {side : Side} {community : Int} {arc : AssignedArc}
    (h : arc.isOn side community = true) : arc.source = community := by
  cases side <;> exact of_decide_eq_true (Bool.and_eq_true_iff.mp h).1

end AssignedArc

section ArcWeights

variable {view : View} {column : Column} {nodes more : List Nat} {community : Int}

theorem AssignedArc.community_eq_of_mem_fromNode {node : Nat} {arc : AssignedArc}
    (h : arc ∈ fromNode view column node) : column.community node = some arc.source := by
  cases hcommunity : column.community node with
  | none =>
    rw [fromNode, hcommunity] at h
    exact absurd h List.not_mem_nil
  | some source =>
    rw [fromNode, hcommunity] at h
    obtain ⟨pair, _, hpair⟩ := List.mem_filterMap.mp h
    obtain ⟨target, _, rfl⟩ := Option.map_eq_some_iff.mp hpair
    rfl

theorem AssignedArc.exists_of_mem_fromNodes {arc : AssignedArc}
    (h : arc ∈ fromNodes view column nodes) :
    ∃ node ∈ nodes, column.community node = some arc.source := by
  obtain ⟨node, hnode, harc⟩ := List.mem_flatMap.mp h
  exact ⟨node, hnode, community_eq_of_mem_fromNode harc⟩

/-- The weights of the relationships from a community to a side of it. -/
def arcWeights (weigh : Float → R) (view : View) (column : Column) (nodes : List Nat)
    (side : Side) (community : Int) : List R :=
  ((AssignedArc.fromNodes view column nodes).filter (·.isOn side community)).map fun arc ↦
    weigh arc.weight

variable {weigh : Float → R} {side : Side}

theorem arcWeights_append : arcWeights weigh view column (nodes ++ more) side community =
    arcWeights weigh view column nodes side community ++
      arcWeights weigh view column more side community := by
  simp only [arcWeights, AssignedArc.fromNodes, List.flatMap_append, List.filter_append,
    List.map_append]

/-- A community without nodes has no relationships. -/
theorem arcWeights_eq_nil (h : ¬ ∃ node ∈ nodes, column.community node = some community) :
    arcWeights weigh view column nodes side community = [] := by
  rw [arcWeights, List.map_eq_nil_iff, List.filter_eq_nil_iff]
  intro arc harc hside
  obtain ⟨node, hnode, hsource⟩ := AssignedArc.exists_of_mem_fromNodes harc
  exact h ⟨node, hnode, hsource.trans (congrArg some (AssignedArc.source_eq_of_isOn hside))⟩

theorem arcWeights_singleton_of_ne {node : Nat} (h : column.community node ≠ some community) :
    arcWeights weigh view column [node] side community = [] := by
  apply arcWeights_eq_nil
  simpa using h

/-- The weights of all relationships between nodes with communities. -/
def assignedWeights (weigh : Float → R) (view : View) (column : Column) (nodes : List Nat) :
    List R :=
  (AssignedArc.fromNodes view column nodes).map fun arc ↦ weigh arc.weight

theorem arcWeights_le : (arcWeights weigh view column nodes side community : Multiset R) ≤
    assignedWeights weigh view column nodes :=
  Multiset.coe_le.mpr (List.filter_sublist.map _).subperm

/-- Every relationship of a community is on one side of it. -/
theorem internal_add_external (arcs : Multiset AssignedArc) (community : Int) :
    arcs.filter (·.isOn .internal community) + arcs.filter (·.isOn .external community) =
      arcs.filter (·.source = community) := by
  have hnone : arcs.filter (fun arc ↦
      arc.isOn .internal community ∧ arc.isOn .external community) = 0 := by
    rw [Multiset.filter_eq_nil]
    intro arc _
    simp only [AssignedArc.isOn, Bool.and_eq_true, decide_eq_true_eq]
    exact fun h ↦ h.2.2 h.1.2
  rw [Multiset.filter_add_filter, hnone, add_zero]
  apply Multiset.filter_congr
  intro arc _
  simp only [AssignedArc.isOn, Bool.and_eq_true, decide_eq_true_eq, ← and_or_left]
  exact and_iff_left (em _)

/-- Every relationship starts in one community. -/
theorem sum_filter_source (arcs : Multiset AssignedArc) {communities : List Int}
    (hnodup : communities.Nodup) :
    (communities.map fun community ↦ arcs.filter (·.source = community)).sum =
      arcs.filter (·.source ∈ communities) := by
  induction communities with
  | nil => simp
  | cons community communities ih =>
    obtain ⟨hnew, hnodup⟩ := List.nodup_cons.mp hnodup
    have hnone : arcs.filter (fun arc ↦ arc.source = community ∧ arc.source ∈ communities) = 0 := by
      rw [Multiset.filter_eq_nil]
      exact fun arc _ h ↦ hnew (h.1 ▸ h.2)
    rw [List.map_cons, List.sum_cons, ih hnodup, Multiset.filter_add_filter, hnone, add_zero]
    simp only [List.mem_cons]

theorem coe_arcWeights : (arcWeights weigh view column nodes side community : Multiset R) =
    ((AssignedArc.fromNodes view column nodes : Multiset AssignedArc).filter
      (·.isOn side community)).map fun arc ↦ weigh arc.weight := by
  rw [Multiset.filter_coe, Multiset.map_coe, arcWeights]
  simp only [Bool.decide_eq_true]

/-- All communities of some nodes have all relationships between them. -/
theorem sum_arcWeights {communities : List Int} (hnodup : communities.Nodup)
    (hall : ∀ node ∈ nodes, ∀ community, column.community node = some community →
      community ∈ communities) :
    (communities.map fun community ↦
      (arcWeights weigh view column nodes .internal community : Multiset R) +
        (arcWeights weigh view column nodes .external community : Multiset R)).sum =
      assignedWeights weigh view column nodes := by
  have hsources : (AssignedArc.fromNodes view column nodes : Multiset AssignedArc).filter
      (·.source ∈ communities) = AssignedArc.fromNodes view column nodes := by
    rw [Multiset.filter_eq_self]
    intro arc harc
    obtain ⟨node, hnode, hsource⟩ := AssignedArc.exists_of_mem_fromNodes harc
    exact hall node hnode arc.source hsource
  have hmap := map_list_sum (Multiset.mapAddMonoidHom fun arc : AssignedArc ↦ weigh arc.weight)
    (communities.map fun community ↦ (AssignedArc.fromNodes view column nodes :
      Multiset AssignedArc).filter (·.source = community))
  rw [sum_filter_source _ hnodup, hsources, List.map_map] at hmap
  simp only [coe_arcWeights, ← Multiset.map_add, internal_add_external]
  exact hmap.symm

end ArcWeights

/-! ## Adding entries -/

variable [Scalar R]

/-- The weights of two parts of a community. -/
def CommunityWeights.plus (weights more : CommunityWeights R) : CommunityWeights R :=
  ⟨Scalar.add weights.internal more.internal, Scalar.add weights.external more.external⟩

theorem CommunityWeights.on_plus (side : Side) (weights more : CommunityWeights R) :
    (weights.plus more).on side = Scalar.add (weights.on side) (more.on side) := by
  cases side <;> rfl

/-- Adds the weight of a relationship on its side of the community. -/
def CommunityWeights.addArc (weigh : Float → R) (weights : CommunityWeights R) (arc : AssignedArc) :
    CommunityWeights R :=
  if arc.target = arc.source then
    { weights with internal := Scalar.add weights.internal (weigh arc.weight) }
  else { weights with external := Scalar.add weights.external (weigh arc.weight) }

theorem CommunityWeights.on_addArc (side : Side) (weigh : Float → R) (weights : CommunityWeights R)
    (arc : AssignedArc) : (weights.addArc weigh arc).on side =
      if arc.isOn side arc.source then Scalar.add (weights.on side) (weigh arc.weight)
      else weights.on side := by
  by_cases h : arc.target = arc.source <;> cases side <;> simp [addArc, AssignedArc.isOn, on, h]

theorem CommunityWeights.addsUpTo_foldl_addArc {weigh : Float → R} {community : Int} {side : Side}
    {arcs : List AssignedArc} {weights : CommunityWeights R} {values : Multiset R}
    (h : Scalar.AddsUpTo values (weights.on side))
    (hsource : ∀ arc ∈ arcs, arc.source = community) :
    Scalar.AddsUpTo
      (values + (((arcs.filter (·.isOn side community)).map fun arc ↦ weigh arc.weight : List R) :
        Multiset R))
      ((arcs.foldl (addArc weigh) weights).on side) := by
  induction arcs generalizing weights values with
  | nil => rwa [List.filter_nil, List.map_nil, Multiset.coe_nil, add_zero]
  | cons arc arcs ih =>
    obtain ⟨rfl, hrest⟩ := List.forall_mem_cons.mp hsource
    have hadded := on_addArc side weigh weights arc
    rw [List.foldl_cons]
    split_ifs at hadded with hside
    · rw [List.filter_cons_of_pos hside, List.map_cons, ← Multiset.cons_coe, Multiset.add_cons,
        ← Multiset.cons_add]
      exact ih (hadded ▸ h.add_value (weigh arc.weight)) hrest
    · rw [List.filter_cons_of_neg hside]
      exact ih (hadded ▸ h) hrest

namespace WeightMap

variable {weights total : WeightMap R} {community other : Int}

theorem on_weightsOf_empty (side : Side) (community : Int) :
    (weightsOf (∅ : WeightMap R) community).on side = Scalar.zero := by
  have hnone : weightsOf (∅ : WeightMap R) community = ⟨Scalar.zero, Scalar.zero⟩ :=
    Std.TreeMap.getD_emptyc
  rw [hnone]
  cases side <;> rfl

theorem weightsOf_insert (weights : WeightMap R) (community : Int) (new : CommunityWeights R) :
    weightsOf (weights.insert community new) other =
      if community = other then new else weights.weightsOf other := by
  simp only [weightsOf, Std.TreeMap.getD_insert, Std.LawfulEqCmp.compare_eq_iff_eq]

theorem weightsOf_addWeights (weights : WeightMap R) (community : Int) (more : CommunityWeights R) :
    weightsOf (weights.addWeights community more) other =
      if community = other then (weights.weightsOf other).plus more
      else weights.weightsOf other := by
  rw [addWeights, weightsOf_insert]
  split_ifs with h
  · rw [h]
    rfl
  · rfl

theorem eq_weightsOf_of_mem {entry : Int × CommunityWeights R} (h : entry ∈ weights.toList) :
    entry.2 = weights.weightsOf entry.1 := by
  rw [weightsOf, Std.TreeMap.getD_eq_getD_getElem?,
    Std.TreeMap.mem_toList_iff_getElem?_eq_some.mp h, Option.getD_some]

theorem mem_addWeights {more : CommunityWeights R} :
    other ∈ weights.addWeights community more ↔ other = community ∨ other ∈ weights := by
  rw [addWeights, Std.TreeMap.mem_insert, Std.LawfulEqCmp.compare_eq_iff_eq, eq_comm]

/-- Adds some entries to a map, one after another. -/
def addAll (total : WeightMap R) (entries : List (Int × CommunityWeights R)) : WeightMap R :=
  entries.foldl (fun total (community, weights) ↦ total.addWeights community weights) total

theorem mem_addAll {entries : List (Int × CommunityWeights R)} :
    other ∈ total.addAll entries ↔ other ∈ entries.map Prod.fst ∨ other ∈ total := by
  induction entries generalizing total with
  | nil => simp [addAll]
  | cons entry entries ih =>
    have hrest : other ∈ total.addAll (entry :: entries) ↔
        other ∈ entries.map Prod.fst ∨ other ∈ total.addWeights entry.1 entry.2 := ih
    rw [hrest, mem_addWeights, List.map_cons, List.mem_cons, or_left_comm, or_assoc]

/-- Entries with different keys are added once each. -/
theorem weightsOf_addAll {entries : List (Int × CommunityWeights R)}
    {found : Int → CommunityWeights R} (hnodup : (entries.map Prod.fst).Nodup)
    (hfound : ∀ entry ∈ entries, entry.2 = found entry.1) :
    weightsOf (total.addAll entries) other =
      if other ∈ entries.map Prod.fst then (total.weightsOf other).plus (found other)
      else total.weightsOf other := by
  induction entries generalizing total with
  | nil => rfl
  | cons entry entries ih =>
    obtain ⟨hnew, hnodup⟩ := List.nodup_cons.mp hnodup
    obtain ⟨hentry, hentries⟩ := List.forall_mem_cons.mp hfound
    have hcons : total.addAll (entry :: entries) =
        (total.addWeights entry.1 entry.2).addAll entries := rfl
    rw [hcons, ih hnodup hentries, weightsOf_addWeights]
    simp only [List.map_cons, List.mem_cons]
    by_cases hother : entry.1 = other
    · subst hother
      rw [if_neg hnew, if_pos rfl, if_pos (.inl rfl), hentry]
    · simp only [if_neg hother, Ne.symm hother, false_or]

/-! ## Accounts -/

/-- A map has entries for the communities of some nodes, which the weights of their relationships
add up to. -/
structure Accounts (weigh : Float → R) (view : View) (column : Column) (nodes : List Nat)
    (weights : WeightMap R) : Prop where
  mem_iff : ∀ community, community ∈ weights ↔
    ∃ node ∈ nodes, column.community node = some community
  addsUpTo : ∀ side community, Scalar.AddsUpTo
    (arcWeights weigh view column nodes side community : Multiset R)
    ((weights.weightsOf community).on side)

namespace Accounts

variable {weigh : Float → R} {view : View} {column : Column} {nodes more : List Nat}
variable {others : WeightMap R}

theorem empty : Accounts weigh view column [] ∅ := by
  refine ⟨fun community ↦ by simp, fun side community ↦ ?_⟩
  rw [on_weightsOf_empty]
  exact .zero

/-- Nodes without a community have no relationships that count. -/
theorem skip (h : Accounts weigh view column nodes weights) {node : Nat}
    (hnode : column.community node = none) :
    Accounts weigh view column (nodes ++ [node]) weights := by
  constructor
  · intro community
    rw [h.mem_iff]
    simp [or_and_right, exists_or, hnode]
  · intro side community
    have hne : column.community node ≠ some community := hnode ▸ nofun
    rw [arcWeights_append, arcWeights_singleton_of_ne hne, List.append_nil]
    exact h.addsUpTo side community

/-- The relationships of a node are added to the weights of its community. -/
theorem insert (h : Accounts weigh view column nodes weights) {node : Nat}
    (hnode : column.community node = some community) :
    Accounts weigh view column (nodes ++ [node]) (weights.insert community
      ((AssignedArc.fromNode view column node).foldl (CommunityWeights.addArc weigh)
        (weights.weightsOf community))) := by
  constructor
  · intro other
    rw [Std.TreeMap.mem_insert, Std.LawfulEqCmp.compare_eq_iff_eq, h.mem_iff]
    simp [or_and_right, exists_or, hnode, or_comm]
  · intro side other
    rw [arcWeights_append, weightsOf_insert, ← Multiset.coe_add]
    split_ifs with hother
    · subst hother
      have harcs : arcWeights weigh view column [node] side community =
          ((AssignedArc.fromNode view column node).filter (·.isOn side community)).map fun arc ↦
            weigh arc.weight := by
        rw [arcWeights, AssignedArc.fromNodes, List.flatMap_singleton]
      have hsource : ∀ arc ∈ AssignedArc.fromNode view column node, arc.source = community := by
        intro arc harc
        have hsame := (AssignedArc.community_eq_of_mem_fromNode harc).symm.trans hnode
        exact Option.some.inj hsame
      rw [harcs]
      exact CommunityWeights.addsUpTo_foldl_addArc (h.addsUpTo side community) hsource
    · have hne : column.community node ≠ some other := by
        rw [hnode]
        exact fun hsame ↦ hother (Option.some.inj hsame)
      rw [arcWeights_singleton_of_ne hne, Multiset.coe_nil, add_zero]
      exact h.addsUpTo side other

/-- Adding all entries of a map to another one. -/
theorem addAll (h : Accounts weigh view column nodes weights)
    (hothers : Accounts weigh view column more others) :
    Accounts weigh view column (nodes ++ more) (weights.addAll others.toList) := by
  have hkeys : others.toList.map Prod.fst = others.keys := Std.TreeMap.map_fst_toList_eq_keys
  have hnodup : (others.toList.map Prod.fst).Nodup := hkeys ▸ Std.TreeMap.nodup_keys
  have hfound : ∀ entry ∈ others.toList, entry.2 = others.weightsOf entry.1 :=
    fun entry hentry ↦ eq_weightsOf_of_mem hentry
  constructor
  · intro community
    rw [mem_addAll, hkeys, Std.TreeMap.mem_keys, h.mem_iff, hothers.mem_iff]
    simp only [List.mem_append, or_and_right, exists_or]
    exact or_comm
  · intro side community
    rw [arcWeights_append, weightsOf_addAll hnodup hfound, ← Multiset.coe_add]
    simp only [hkeys, Std.TreeMap.mem_keys]
    split_ifs with hmem
    · rw [CommunityWeights.on_plus]
      exact (h.addsUpTo side community).add (hothers.addsUpTo side community)
    · rw [hothers.mem_iff] at hmem
      rw [arcWeights_eq_nil hmem, Multiset.coe_nil, add_zero]
      exact h.addsUpTo side community

/-- If addition is exact, the entries are the sums of the weights. -/
theorem getElem?_eq (h : Accounts weigh view column nodes weights)
    (hexact : Scalar.AddExactly (assignedWeights weigh view column nodes : Multiset R)) :
    weights[community]? =
      if ∃ node ∈ nodes, column.community node = some community then
        some ⟨Scalar.sum (arcWeights weigh view column nodes .internal community),
          Scalar.sum (arcWeights weigh view column nodes .external community)⟩
      else none := by
  have hsum (side : Side) : (weights.weightsOf community).on side =
      Scalar.sum (arcWeights weigh view column nodes side community) :=
    (h.addsUpTo side community).eq_sum (hexact.mono arcWeights_le)
  split_ifs with hassigned
  · have hget : weights[community]? = some (weights.weightsOf community) :=
      Std.TreeMap.getElem?_eq_some_getD ((h.mem_iff community).mpr hassigned)
    rw [hget, ← hsum, ← hsum]
    rfl
  · exact Std.TreeMap.getElem?_eq_none (mt (h.mem_iff community).mp hassigned)

/-- Together, the entries are the sum of the weights of all relationships. -/
theorem sum_toList (h : Accounts weigh view column nodes weights)
    (hexact : Scalar.AddExactly (assignedWeights weigh view column nodes : Multiset R)) :
    Scalar.sum (weights.toList.map fun entry ↦ Scalar.add entry.2.internal entry.2.external) =
      Scalar.sum (assignedWeights weigh view column nodes) := by
  have hkeys : weights.toList.map Prod.fst = weights.keys := Std.TreeMap.map_fst_toList_eq_keys
  have hnodup : (weights.toList.map Prod.fst).Nodup := hkeys ▸ Std.TreeMap.nodup_keys
  have hall : ∀ node ∈ nodes, ∀ community, column.community node = some community →
      community ∈ weights.toList.map Prod.fst := by
    intro node hnode community hcommunity
    rw [hkeys, Std.TreeMap.mem_keys]
    exact (h.mem_iff community).mpr ⟨node, hnode, hcommunity⟩
  have hparts : List.Forall₂ Scalar.AddsUpTo
      (weights.toList.map fun entry ↦
        (arcWeights weigh view column nodes .internal entry.1 : Multiset R) +
          (arcWeights weigh view column nodes .external entry.1 : Multiset R))
      (weights.toList.map fun entry ↦ Scalar.add entry.2.internal entry.2.external) := by
    rw [List.forall₂_map_left_iff, List.forall₂_map_right_iff, List.forall₂_same]
    intro entry hentry
    rw [eq_weightsOf_of_mem hentry]
    exact (h.addsUpTo .internal entry.1).add (h.addsUpTo .external entry.1)
  refine Scalar.AddsUpTo.eq_sum ?_ hexact
  rw [← sum_arcWeights hnodup hall, List.map_map]
  exact Scalar.addsUpTo_sum_totals hparts

/-- If addition is exact, two maps that account for the same nodes have the same entries. -/
theorem toList_eq (h : Accounts weigh view column nodes weights)
    (hothers : Accounts weigh view column nodes others)
    (hexact : Scalar.AddExactly (assignedWeights weigh view column nodes : Multiset R)) :
    weights.toList = others.toList := by
  refine Std.TreeMap.Equiv.toList_eq (.of_forall_constGet?_eq fun community ↦ ?_)
  rw [h.getElem?_eq hexact, hothers.getElem?_eq hexact]

end Accounts

end WeightMap

end PackedGraph
