import PackedGraph.Proofs.Store.BuildAndRead
import PackedGraph.Proofs.View.Triangles

/-!
# The triangles of a built graph

On every view of an undirected graph each triangle of small degrees is found exactly once, whatever
the finder has been used for before.
-/

namespace PackedGraph

/-- Some arc joins two nodes, in one direction or the other. -/
def Adjacent (arcs : List Arc) (a b : Nat) : Prop :=
  ∃ arc ∈ arcs, arc.source = a ∧ arc.target = b ∨ arc.source = b ∧ arc.target = a

/-- Three nodes in increasing order are adjacent to each other, and none has a degree above a
limit. -/
structure IsTriangle (arcs : List Arc) (degree : Nat → Nat) (maxDegree : Nat) (t : Triangle) :
    Prop where
  lt_b : t.a < t.b
  lt_c : t.b < t.c
  adjacent_ab : Adjacent arcs t.a t.b
  adjacent_ac : Adjacent arcs t.a t.c
  adjacent_bc : Adjacent arcs t.b t.c
  degree_a : degree t.a ≤ maxDegree
  degree_b : degree t.b ≤ maxDegree
  degree_c : degree t.c ≤ maxDegree

/-- Two states of a view, or a view and a copy of it, that have not released the topology. -/
def PackedView.SameTopology (view used : PackedView) : Prop :=
  used.isUndirected = view.isUndirected ∧
    used.topology.map TopologyReader.topology = view.topology.map TopologyReader.topology

theorem GraphBuilder.mem_targets_iff_adjacent {builder : GraphBuilder}
    (hundirected : builder.orientation = .undirected) {a b : Nat} :
    b ∈ builder.targets a ↔ Adjacent builder.arcs.toList a b := by
  rw [mem_targets_iff, hundirected, Adjacent]
  simp only [Orientation.entries, List.mem_pair]
  constructor
  · rintro ⟨arc, harc, entry, rfl | rfl, hsource, htarget⟩
    · exact ⟨entry, harc, .inl ⟨hsource, htarget⟩⟩
    · exact ⟨arc, harc, .inr ⟨htarget, hsource⟩⟩
  · rintro ⟨arc, harc, ⟨hsource, htarget⟩ | ⟨hsource, htarget⟩⟩
    · exact ⟨arc, harc, arc, .inl rfl, hsource, htarget⟩
    · exact ⟨arc, harc, arc.reversed, .inr rfl, htarget, hsource⟩

/-- What the finder reports from the lists of an undirected graph are its triangles. -/
theorem GraphBuilder.reports_iff {builder : GraphBuilder}
    (hundirected : builder.orientation = .undirected) {maxDegree : Nat} {t : Triangle} :
    TriangleFinder.Reports builder.targets maxDegree t ↔
      IsTriangle builder.arcs.toList (fun node ↦ (builder.targets node).length) maxDegree t := by
  constructor
  · rintro ⟨hab, hbc, hb, hc, hcb, ha, hb', hc'⟩
    rw [mem_targets_iff_adjacent hundirected] at hb hc hcb
    exact ⟨hab, hbc, hb, hc, hcb, ha, hb', hc'⟩
  · rintro ⟨hab, hbc, hb, hc, hcb, ha, hb', hc'⟩
    rw [← mem_targets_iff_adjacent hundirected] at hb hc hcb
    exact ⟨hab, hbc, hb, hc, hcb, ha, hb', hc'⟩

/-- A finder on a view of an undirected graph, whatever it is used for. -/
theorem PackedView.Shows.triangles_eq {view used : PackedView} {builder : GraphBuilder}
    {position : Option Nat} (h : view.Shows builder position)
    (hundirected : builder.orientation = .undirected) (hused : view.SameTopology used)
    (maxDegree : Nat) :
    ∃ finder, (View.packed used).triangles maxDegree = .ok finder ∧ finder.maxDegree = maxDegree ∧
      finder.topology.Stores ((List.range builder.nodeCount).map builder.targets) := by
  obtain ⟨reader, hreader, hstores⟩ := h.topology
  obtain ⟨hsame, htopology⟩ := hused
  rw [hreader, Option.map_some, Option.map_eq_some_iff] at htopology
  obtain ⟨current, hcurrent, heq⟩ := htopology
  have hdirection : used.isUndirected = true := by
    rw [hsame, h.isUndirected_eq, hundirected]
    rfl
  refine ⟨⟨current.topology, maxDegree, .exhausted⟩, ?_, rfl, heq ▸ hstores⟩
  rw [View.triangles]
  simp only [hdirection, hcurrent, if_true]

/-- A triangle lies on the nodes of the graph, starting with its smallest one. -/
theorem GraphBuilder.Valid.triangle_lt {builder : GraphBuilder} (h : builder.Valid)
    {degree : Nat → Nat} {maxDegree : Nat} {t : Triangle}
    (ht : IsTriangle builder.arcs.toList degree maxDegree t) : t.a < builder.nodeCount := by
  obtain ⟨arc, harc, hends⟩ := ht.adjacent_ab
  have hlt := h.ends_lt arc (Array.mem_toList_iff.mp harc)
  rcases hends with ⟨hsource, _⟩ | ⟨_, htarget⟩
  · exact hsource ▸ hlt.1
  · exact htarget ▸ hlt.2

/-- What a finder on the lists of an undirected graph finds for one node and for all of them. -/
theorem TriangleFinder.finds_triangles {builder : GraphBuilder} (hvalid : builder.Valid)
    (hundirected : builder.orientation = .undirected) {finder : TriangleFinder}
    (h : finder.topology.Stores ((List.range builder.nodeCount).map builder.targets)) :
    let degree node := (builder.targets node).length
    (∀ a < builder.nodeCount, ∃ next found, finder.find a = (next, found, .ok ()) ∧
      found.Pairwise Triangle.Precedes ∧ ∀ t, t ∈ found ↔
        t.a = a ∧ IsTriangle builder.arcs.toList degree finder.maxDegree t) ∧
    ∀ nodes, nodes.Perm (List.range builder.nodeCount) → ∃ next all,
      finder.findAll nodes = (next, all, .ok ()) ∧ all.Nodup ∧
        ∀ t, t ∈ all ↔ IsTriangle builder.arcs.toList degree finder.maxDegree t := by
  intro degree
  have hlist : ∀ a < builder.nodeCount, ∀ t ∈ builder.targets a, t < builder.nodeCount :=
    fun a _ t ht ↦ hvalid.target_lt ht
  constructor
  · intro a ha
    obtain ⟨moved, found, hfind, hpairwise, hmem⟩ := find_eq h ha (hlist a ha)
    refine ⟨_, found, hfind, hpairwise, fun t ↦ ?_⟩
    rw [hmem, GraphBuilder.reports_iff hundirected]
  · intro nodes hperm
    have hnodes : ∀ a ∈ nodes, a < builder.nodeCount := fun a ha ↦
      List.mem_range.mp (hperm.mem_iff.mp ha)
    obtain ⟨moved, all, hall, hnodup, hmem⟩ := findAll_eq h hlist hnodes
      (hperm.nodup_iff.mpr List.nodup_range)
    refine ⟨_, all, hall, hnodup, fun t ↦ ?_⟩
    rw [hmem, GraphBuilder.reports_iff hundirected, hperm.mem_iff, List.mem_range]
    exact and_iff_right_of_imp hvalid.triangle_lt

/-- Every view of an undirected graph finds each triangle of small degrees once, from its smallest
node and in order, even if the finder has been used for other nodes before. -/
theorem built_graph_finds_each_triangle_once (calls : List BuilderCall) (graph : CompressedGraph)
    (hcompress : (GraphBuilder.new.performAll calls).compress = .ok graph)
    (hundirected : (GraphBuilder.new.performAll calls).orientation = .undirected)
    (memory : Memory) (key : Option String)
    (hkey : ∀ k ∈ key, k ∈ (GraphBuilder.new.performAll calls).keys) :
    let builder := GraphBuilder.new.performAll calls
    let arcs := GraphBuilder.new.acceptedArcs calls
    let degree node := (referenceList .undirected builder.aggregation arcs node 0).length
    ∃ store after, (graph.toStore builder.account).run memory = (store, after) ∧
      ∀ now, store.SameBlocks after now →
        ∃ view later, (store.view key).run.run now = (.ok (.packed view), later) ∧
          store.SameBlocks now later ∧
          ∀ used, view.SameTopology used → ∀ maxDegree,
            ∃ finder, (View.packed used).triangles maxDegree = .ok finder ∧ ∀ uses,
              (∀ a < builder.nodeCount, ∃ next found,
                (finder.after uses).find a = (next, found, .ok ()) ∧
                  found.Pairwise Triangle.Precedes ∧
                  ∀ t, t ∈ found ↔ t.a = a ∧ IsTriangle arcs degree maxDegree t) ∧
              ∀ nodes, nodes.Perm (List.range builder.nodeCount) → ∃ next all,
                (finder.after uses).findAll nodes = (next, all, .ok ()) ∧ all.Nodup ∧
                  ∀ t, t ∈ all ↔ IsTriangle arcs degree maxDegree t := by
  intro builder arcs degree
  have hvalid : builder.Valid := GraphBuilder.valid_new.performAll calls
  have harcs : builder.arcs.toList = arcs :=
    GraphBuilder.arcs_performAll GraphBuilder.valid_new calls
  have hdegree : degree = fun node ↦ (builder.targets node).length := by
    funext node
    rw [← builder.length_referenceList node 0, harcs, hundirected]
  obtain ⟨store, after, hstore, hkeeps⟩ :=
    (hvalid.stores_of_compress hcompress).toStore builder.account memory
  refine ⟨store, after, hstore, fun now hnow ↦ ?_⟩
  obtain ⟨view, later, hview, hshows, _, hsame⟩ := (hkeeps.of_sameBlocks hnow).view_eq hkey
  refine ⟨view, later, hview, hsame, fun used hused maxDegree ↦ ?_⟩
  obtain ⟨finder, hfinder, hmax, hstores⟩ := hshows.triangles_eq hundirected hused maxDegree
  refine ⟨finder, hfinder, fun uses ↦ ?_⟩
  obtain ⟨cursor, hcursor⟩ := finder.after_cursor uses
  have hafter : (finder.after uses).topology.Stores
      ((List.range builder.nodeCount).map builder.targets) := hcursor ▸ hstores
  have hmaxAfter : (finder.after uses).maxDegree = maxDegree := by
    rw [hcursor]
    exact hmax
  have hfinds := TriangleFinder.finds_triangles hvalid hundirected hafter
  rw [harcs, hmaxAfter, ← hdegree] at hfinds
  exact hfinds

theorem built_graph_finds_triangles_of_parallel_arcs :
    ∃ graph, (GraphBuilder.new.performAll parallelCalls).compress = .ok graph ∧
      (GraphBuilder.new.performAll parallelCalls).orientation = .undirected ∧
      (∀ k ∈ (none : Option String), k ∈ (GraphBuilder.new.performAll parallelCalls).keys) ∧
      ∃ store after,
        (graph.toStore (GraphBuilder.new.performAll parallelCalls).account).run .empty =
          (store, after) ∧
        ∃ view later, (store.view none).run.run after = (.ok (.packed view), later) ∧
          ∃ finder, (View.packed view).triangles 3 = .ok finder ∧ ∃ next all,
            finder.findAll (List.range (GraphBuilder.new.performAll parallelCalls).nodeCount) =
              (next, all, .ok ()) ∧ all.Nodup := by
  have hsettings := settings_parallelCalls
  simp only [GraphBuilder.settings, Prod.mk.injEq] at hsettings
  obtain ⟨graph, hcompress⟩ :=
    GraphBuilder.exists_compress_of_length_lt buildable_parallelCalls (by decide)
  have hkey : ∀ k ∈ (none : Option String),
      k ∈ (GraphBuilder.new.performAll parallelCalls).keys := fun k hk ↦
    absurd hk (Option.not_mem_none k)
  obtain ⟨store, after, hstore, hviews⟩ := built_graph_finds_each_triangle_once parallelCalls graph
    hcompress hsettings.1 .empty none hkey
  obtain ⟨view, later, hview, _, htriangles⟩ := hviews after rfl
  obtain ⟨finder, hfinder, huses⟩ := htriangles view ⟨rfl, rfl⟩ 3
  obtain ⟨next, all, hall, hnodup, _⟩ := (huses []).2 _ (List.Perm.refl _)
  exact ⟨graph, hcompress, hsettings.1, hkey, store, after, hstore, view, later, hview, finder,
    hfinder, next, all, hall, hnodup⟩

end PackedGraph
