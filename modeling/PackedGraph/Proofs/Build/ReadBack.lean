import PackedGraph.Proofs.Build.Compression
import PackedGraph.Proofs.Build.Registration

/-!
# Reading back nodes

A compressed graph knows its nodes as they were added: their ids in the order in which they were
first mentioned, their labels, and the last value that was given to them for each property.
-/

namespace PackedGraph

/-! ## Ids and labels -/

/-- An id map numbers some ids in the order of their first mention, and its labels are those that
were listed for these ids. -/
structure IdMap.ReadsBack (ids : IdMap) (mentioned : List UInt64)
    (labelled : List (UInt64 × String)) : Prop where
  nodeCount_eq : ids.nodeCount = mentioned.eraseDups.length
  original_eq_iff : ∀ node original,
    ids.original node = .ok original ↔ mentioned.eraseDups[node]? = some original
  node?_eq_iff : ∀ original node,
    ids.node? original = some node ↔ ids.original node = .ok original
  contains_iff : ∀ original, ids.contains original = true ↔ original ∈ mentioned
  hasLabel_iff : ∀ node label, ids.hasLabel node label = true ↔
    ∃ original, ids.original node = .ok original ∧ (original, label) ∈ labelled
  labels_increasing : ids.labels.Pairwise (· < ·)
  mem_labels_iff : ∀ label, label ∈ ids.labels ↔
    ∃ node < ids.nodeCount, ids.hasLabel node label = true
  nodesWithLabel_isSome_iff : ∀ label, (ids.nodesWithLabel label).isSome ↔ label ∈ ids.labels
  nodes_increasing : ∀ label nodes, ids.nodesWithLabel label = some nodes →
    nodes.toList.Pairwise (· < ·)
  mem_nodes_iff : ∀ label nodes, ids.nodesWithLabel label = some nodes →
    ∀ node, node ∈ nodes ↔ ids.hasLabel node label = true
  nodeLabels_increasing : ∀ node, (ids.nodeLabels node).Pairwise (· < ·)
  mem_nodeLabels_iff : ∀ node label,
    label ∈ ids.nodeLabels node ↔ ids.hasLabel node label = true

namespace IdMap

theorem original_eq_ok_iff {ids : IdMap} {node : Nat} {original : UInt64} :
    ids.original node = .ok original ↔ ids.originals[node]? = some original := by
  rw [IdMap.original]
  cases ids.originals[node]? <;> simp

theorem labels_increasing (ids : IdMap) : ids.labels.Pairwise (· < ·) := by
  apply Std.TreeMap.ordered_keys.imp
  intro a b hab
  exact compareOfLessAndEq_eq_lt.mp hab

theorem isSome_nodesWithLabel_iff {ids : IdMap} {label : String} :
    (ids.nodesWithLabel label).isSome ↔ label ∈ ids.labels := by
  rw [nodesWithLabel, labels, Std.TreeMap.mem_keys, Std.TreeMap.mem_iff_isSome_getElem?]

end IdMap

namespace IdMapBuilder

variable {ids : IdMapBuilder} {mentioned : List UInt64} {labelled : List (UInt64 × String)}

theorem nodesWithLabel_build_eq_some_iff {label : String} {nodes : Array Nat} :
    ids.build.nodesWithLabel label = some nodes ↔
      ∃ members, ids.members[label]? = some members ∧ sortMembers members = nodes := by
  rw [IdMap.nodesWithLabel, build, Std.TreeMap.getElem?_map, Option.map_eq_some_iff]

theorem hasLabel_build_iff {node : Nat} {label : String} :
    ids.build.hasLabel node label = true ↔ ids.HasMember node label := by
  refine ⟨fun h ↦ ?_, HasMember.hasLabel⟩
  rw [IdMap.hasLabel, Option.any_eq_true] at h
  obtain ⟨nodes, hnodes, hfound⟩ := h
  obtain ⟨members, hmembers, rfl⟩ := nodesWithLabel_build_eq_some_iff.mp hnodes
  rw [IdMap.bisect_eq_true_iff (pairwise_sortMembers members), mem_sortMembers_iff] at hfound
  exact ⟨members, hmembers, hfound⟩

theorem Registers.readsBack (h : ids.Registers mentioned labelled) (hvalid : ids.Valid) :
    ids.build.ReadsBack mentioned labelled := by
  have horiginal (node : Nat) (original : UInt64) :
      ids.build.original node = .ok original ↔ ids.originals[node]? = some original :=
    IdMap.original_eq_ok_iff
  have hhas (node : Nat) (label : String) : ids.build.hasLabel node label = true ↔
      ∃ original, ids.build.original node = .ok original ∧ (original, label) ∈ labelled := by
    simp only [hasLabel_build_iff, h.hasMember_iff, horiginal]
  refine ⟨?_, fun node original ↦ ?_, fun original node ↦ ?_, fun original ↦ ?_, hhas,
    ids.build.labels_increasing, fun label ↦ ⟨fun hlabel ↦ ?_, ?_⟩,
    fun label ↦ IdMap.isSome_nodesWithLabel_iff, fun label nodes hnodes ↦ ?_,
    fun label nodes hnodes node ↦ ?_, fun node ↦ ?_, fun node label ↦ ?_⟩
  · rw [IdMap.nodeCount, ← Array.length_toList]
    exact congrArg List.length h.originals_eq
  · rw [horiginal, ← h.originals_eq, Array.getElem?_toList]
  · rw [horiginal]
    exact hvalid original node
  · rw [IdMap.contains, Std.HashMap.contains_eq_isSome_getElem?, ← List.mem_eraseDups,
      ← h.originals_eq, Array.mem_toList_iff, Array.mem_iff_getElem?, Option.isSome_iff_exists]
    exact exists_congr fun node ↦ hvalid original node
  · obtain ⟨nodes, hnodes⟩ := Option.isSome_iff_exists.mp (IdMap.isSome_nodesWithLabel_iff.mpr hlabel)
    obtain ⟨members, hmembers, _⟩ := nodesWithLabel_build_eq_some_iff.mp hnodes
    obtain ⟨node, hnode⟩ := Array.exists_mem_of_ne_empty members (h.populated label members hmembers)
    have hmember : ids.HasMember node label := ⟨members, hmembers, hnode⟩
    obtain ⟨original, hknown, _⟩ := (h.hasMember_iff node label).mp hmember
    obtain ⟨hlt, _⟩ := Array.getElem?_eq_some_iff.mp hknown
    exact ⟨node, hlt, hasLabel_build_iff.mpr hmember⟩
  · rintro ⟨node, _, hhasLabel⟩
    exact IdMap.mem_labels_of_hasLabel hhasLabel
  · obtain ⟨members, _, rfl⟩ := nodesWithLabel_build_eq_some_iff.mp hnodes
    exact pairwise_sortMembers members
  · obtain ⟨members, hmembers, rfl⟩ := nodesWithLabel_build_eq_some_iff.mp hnodes
    rw [mem_sortMembers_iff, hasLabel_build_iff]
    constructor
    · intro hnode
      exact ⟨members, hmembers, hnode⟩
    · rintro ⟨others, hothers, hnode⟩
      obtain rfl := Option.some.inj (hmembers.symm.trans hothers)
      exact hnode
  · exact ids.build.labels_increasing.filter _
  · rw [IdMap.nodeLabels, List.mem_filter]
    exact and_iff_right_of_imp IdMap.mem_labels_of_hasLabel

end IdMapBuilder

/-- The ids and labels of a built map are those that the accepted calls have brought. -/
theorem GraphBuilder.readsBack_performAll (calls : List BuilderCall) :
    (new.performAll calls).ids.build.ReadsBack
      ((new.acceptedCalls calls).flatMap BuilderCall.mentions)
      ((new.acceptedCalls calls).flatMap BuilderCall.labelled) := by
  have hreflects : (new.performAll calls).Reflects (new.acceptedCalls calls) :=
    reflects_new.performAll valid_new calls
  exact hreflects.registers.readsBack (valid_new.performAll calls).ids

/-! ## Columns -/

/-- The value that stands for a missing one. -/
def ValueType.missing : ValueType → PropertyValue
  | .long => .long Column.missingLong
  | .double => .double Column.missingDouble
  | .doubleArray => .doubleArray #[]

namespace Column

/-- What a column holds for a node, be it a missing value or not. -/
def content? : Column → Nat → Option PropertyValue
  | long values, node => values[node]?.map .long
  | double values, node => values[node]?.map .double
  | doubleArray values, node => values[node]?.map .doubleArray

theorem content?_blank (type : ValueType) {size node : Nat} (hnode : node < size) :
    (blank type size).content? node = some type.missing := by
  cases type <;> simp [blank, content?, ValueType.missing, hnode]

theorem getElem?_replace {α : Type} {values next : Array α} {node : Nat} {value : α}
    (h : replace values node value = .ok next) (other : Nat) :
    next[other]? = if other = node then some value else values[other]? := by
  rw [replace] at h
  split_ifs at h with hnode
  obtain rfl := Except.ok.inj h
  rw [Array.getElem?_setIfInBounds, if_pos hnode]
  simp only [eq_comm]

/-- Giving a node a value changes the content of this node only. -/
theorem content?_set {column next : Column} {node : Nat} {value : PropertyValue}
    (h : column.set node value = .ok (some next)) (other : Nat) :
    next.content? other = if other = node then some value else column.content? other := by
  cases column <;> cases value
  case long.long values value | double.double values value | doubleArray.doubleArray values value =>
    obtain ⟨replaced, hreplaced, hnext⟩ := exists_of_map_eq_ok h
    obtain rfl := Option.some.inj hnext
    rw [content?, content?, getElem?_replace hreplaced]
    split_ifs <;> rfl
  all_goals exact nomatch h

end Column

namespace GraphBuilder

/-- The last value that is given to a node replaces all others. -/
theorem content?_setEntries {key : String} {entries : List (Nat × PropertyValue)}
    {column built : Column} (h : entries.foldlM (setEntry key) column = .ok built) (node : Nat) :
    built.content? node = (entries.reverse.lookup node).or (column.content? node) := by
  induction entries generalizing column with
  | nil =>
    obtain rfl := Except.ok.inj h
    rfl
  | cons entry entries ih =>
    rw [List.foldlM_cons] at h
    obtain ⟨next, hnext, hrest⟩ := exists_of_bind_eq_ok h
    obtain ⟨set?, hset, hsome⟩ := exists_of_bind_eq_ok hnext
    cases set? with
    | none => exact nomatch hsome
    | some set =>
      obtain rfl := Except.ok.inj hsome
      rw [ih hrest, Column.content?_set hset, List.reverse_cons, List.lookup_append, Option.or_assoc]
      congr 1
      by_cases hnode : node = entry.1
      · rw [if_pos hnode, List.lookup, beq_iff_eq.mpr hnode]
        rfl
      · rw [if_neg hnode, List.lookup, beq_eq_false_iff_ne.mpr hnode]
        rfl

theorem content?_buildColumn {size : Nat} {key : String} {record : PropertyRecord} {column : Column}
    (h : buildColumn size key record = .ok column) {node : Nat} (hnode : node < size) :
    column.content? node =
      some ((record.values.toList.reverse.lookup node).getD record.type.missing) := by
  rw [buildColumn, ← Array.foldlM_toList] at h
  rw [content?_setEntries h, Column.content?_blank _ hnode]
  cases record.values.toList.reverse.lookup node <;> rfl

theorem getElem?_insertColumns {size : Nat} {records : List (String × PropertyRecord)}
    {start columns : Std.TreeMap String Column}
    (h : records.foldlM (fun columns (key, record) ↦ do
      let column ← buildColumn size key record
      return columns.insert key column) start = .ok columns) (key : String) :
    (∃ record column, (key, record) ∈ records ∧ columns[key]? = some column ∧
        buildColumn size key record = .ok column) ∨
      (∀ record, (key, record) ∉ records) ∧ columns[key]? = start[key]? := by
  induction records generalizing start with
  | nil =>
    obtain rfl := Except.ok.inj h
    exact .inr ⟨fun _ ↦ List.not_mem_nil, rfl⟩
  | cons entry records ih =>
    rw [List.foldlM_cons] at h
    obtain ⟨next, hnext, hrest⟩ := exists_of_bind_eq_ok h
    obtain ⟨column, hcolumn, hinsert⟩ := exists_of_bind_eq_ok hnext
    obtain rfl := Except.ok.inj hinsert
    rcases ih hrest with ⟨record, built, hmem, hbuilt⟩ | ⟨hnone, hsame⟩
    · exact .inl ⟨record, built, List.mem_cons_of_mem _ hmem, hbuilt⟩
    · rw [Std.TreeMap.getElem?_insert] at hsame
      simp only [Std.LawfulEqCmp.compare_eq_iff_eq] at hsame
      by_cases hkey : entry.1 = key
      · subst hkey
        rw [if_pos rfl] at hsame
        exact .inl ⟨entry.2, column, List.mem_cons_self, hsame, hcolumn⟩
      · rw [if_neg hkey] at hsame
        refine .inr ⟨fun record hmem ↦ ?_, hsame⟩
        rcases List.mem_cons.mp hmem with rfl | hmem
        · exact hkey rfl
        · exact hnone record hmem

/-- There is a column for every record, and none without one. -/
theorem getElem?_buildColumns {builder : GraphBuilder} {size : Nat}
    {columns : Std.TreeMap String Column} (h : builder.buildColumns size = .ok columns)
    (key : String) :
    match builder.properties[key]? with
    | none => columns[key]? = none
    | some record => ∃ column, columns[key]? = some column ∧
        buildColumn size key record = .ok column := by
  have hmem (record : PropertyRecord) :
      (key, record) ∈ builder.properties.toList ↔ builder.properties[key]? = some record :=
    Std.TreeMap.mem_toList_iff_getElem?_eq_some
  rcases getElem?_insertColumns h key with ⟨record, column, hrecord, hcolumn⟩ | ⟨hnone, hempty⟩
  · rw [(hmem record).mp hrecord]
    exact ⟨column, hcolumn⟩
  · cases hrecord : builder.properties[key]? with
    | none => exact hempty.trans Std.TreeMap.getElem?_emptyc
    | some record => exact absurd ((hmem record).mpr hrecord) (hnone record)

theorem lookup_eq_of_forall₂ {ids : IdMapBuilder} (hvalid : ids.Valid) {node : Nat}
    {original : UInt64} (hnode : ids.node? original = some node)
    {entries : List (Nat × PropertyValue)} {given : List (UInt64 × PropertyValue)}
    (h : List.Forall₂ (fun entry other ↦ ids.node? other.1 = some entry.1 ∧ entry.2 = other.2)
      entries given) : entries.lookup node = given.lookup original := by
  induction h with
  | nil => rfl
  | @cons entry other _ _ hhead _ ih =>
    obtain ⟨hother, hvalue⟩ := hhead
    have hiff : node = entry.1 ↔ original = other.1 := by
      constructor
      · rintro rfl
        have hsame := ((hvalid _ _).mp hnode).symm.trans ((hvalid _ _).mp hother)
        exact Option.some.inj hsame
      · rintro rfl
        exact Option.some.inj (hnode.symm.trans hother)
    have hbeq : (node == entry.1) = (original == other.1) := by
      rw [Bool.eq_iff_iff, beq_iff_eq, beq_iff_eq]
      exact hiff
    rw [List.lookup, List.lookup, hbeq, hvalue, ih]

/-- The column of a key holds for each node the last value that was given to it. -/
theorem Reflects.column {builder : GraphBuilder} {calls : List BuilderCall}
    (h : builder.Reflects calls) (hvalid : builder.Valid) {columns : Std.TreeMap String Column}
    (hcolumns : builder.buildColumns builder.nodeCount = .ok columns) (key : String) :
    let given := calls.flatMap (BuilderCall.valuesOf key)
    (given = [] → columns[key]? = none) ∧
      ∀ first rest, given = first :: rest → ∃ column, columns[key]? = some column ∧
        column.type = first.2.type ∧ column.size = builder.nodeCount ∧
        ∀ (node : Nat) original, builder.ids.originals[node]? = some original →
          column.content? node =
            some ((given.reverse.lookup original).getD first.2.type.missing) := by
  intro given
  have hrecord : builder.ids.Records builder.properties[key]? given := h.records key
  have hcolumn := getElem?_buildColumns hcolumns key
  cases hproperties : builder.properties[key]? with
  | none =>
    rw [hproperties] at hrecord hcolumn
    have hnone : given = [] := hrecord
    refine ⟨fun _ ↦ hcolumn, fun first rest hgiven ↦ ?_⟩
    exact nomatch hnone.symm.trans hgiven
  | some record =>
    rw [hproperties] at hrecord hcolumn
    obtain ⟨hfirst, hvalues⟩ := hrecord
    obtain ⟨column, hlookup, hbuild⟩ := hcolumn
    obtain ⟨other, hother, hsize, htype⟩ := buildColumn_eq (hvalid.records key record hproperties) key
    obtain rfl := Except.ok.inj (hbuild.symm.trans hother)
    constructor
    · intro hgiven
      rw [hgiven] at hfirst
      exact nomatch hfirst
    · intro first rest hgiven
      rw [hgiven] at hfirst
      have hfirstType : first.2.type = record.type := Option.some.inj hfirst
      refine ⟨column, hlookup, htype.trans hfirstType.symm, hsize, fun node original hknown ↦ ?_⟩
      have hnode := (hvalid.ids original node).mpr hknown
      rw [content?_buildColumn hbuild (hvalid.ids.node_lt hnode), hfirstType]
      have hsame := lookup_eq_of_forall₂ hvalid.ids hnode (List.rel_reverse hvalues)
      rw [hsame]

end GraphBuilder

/-- A compressed graph knows of its nodes what the accepted calls have brought. The ids are numbered
in the order in which they were first mentioned, and can be translated in both directions. A node
has the labels that were listed for its id, and the labels can be read from either side. A property
has a column if some value was given for it, of the type of the first value, and a node has the last
value that was given to it, or else a missing one. -/
theorem nodes_are_read_back_as_added (calls : List BuilderCall) {graph : CompressedGraph}
    (hcompress : (GraphBuilder.new.performAll calls).compress = .ok graph) :
    let accepted := GraphBuilder.new.acceptedCalls calls
    graph.ids.ReadsBack (accepted.flatMap BuilderCall.mentions)
        (accepted.flatMap BuilderCall.labelled) ∧
      ∀ key : String,
        let given := accepted.flatMap (BuilderCall.valuesOf key)
        (given = [] → graph.columns[key]? = none) ∧
          ∀ first rest, given = first :: rest → ∃ column, graph.columns[key]? = some column ∧
            column.type = first.2.type ∧ column.size = graph.ids.nodeCount ∧
            ∀ node original, graph.ids.original node = .ok original →
              column.content? node =
                some ((given.reverse.lookup original).getD first.2.type.missing) := by
  intro accepted
  have hvalid := GraphBuilder.valid_new.performAll calls
  have hreflects : (GraphBuilder.new.performAll calls).Reflects accepted :=
    GraphBuilder.reflects_new.performAll GraphBuilder.valid_new calls
  obtain ⟨shift, packed, hparts⟩ := hvalid.putsTogether_of_compress hcompress
  rw [hparts.ids_eq]
  refine ⟨hreflects.registers.readsBack hvalid.ids, fun key ↦ ?_⟩
  simp only [IdMap.original_eq_ok_iff]
  exact hreflects.column hvalid hparts.columns key

/-- Calls for two nodes, one of which is given a label and two values for a property. -/
def agedCalls : List BuilderCall :=
  [.addNodeWithProperties 7 [("age", .long 3), ("age", .long 4)] ["Person"], .register 9]

theorem acceptedCalls_agedCalls : GraphBuilder.new.acceptedCalls agedCalls = agedCalls := by
  have hlabels : ∃ labels, Label.ofNames ["Person"] = .ok labels := ⟨_, rfl⟩
  obtain ⟨labels, hlabels⟩ := hlabels
  have hcheck : GraphBuilder.checkTypes GraphBuilder.new.properties []
      [("age", .long 3), ("age", .long 4)] = .ok () := by
    simp [GraphBuilder.checkTypes, GraphBuilder.new, PropertyValue.type]
  simp only [agedCalls, GraphBuilder.acceptedCalls, GraphBuilder.perform, BuilderCall.toCall,
    run_map, GraphBuilder.run_addNodeWithProperties, hlabels, hcheck, GraphBuilder.run_register]
  rfl

theorem exists_compress_agedCalls :
    ∃ graph, (GraphBuilder.new.performAll agedCalls).compress = .ok graph :=
  GraphBuilder.exists_compress_of_isData (by decide) (by decide)

theorem aged_nodes_are_read_back :
    ∃ graph, (GraphBuilder.new.performAll agedCalls).compress = .ok graph ∧
      graph.ids.original 0 = .ok 7 ∧ graph.ids.node? 9 = some 1 ∧
      graph.ids.hasLabel 0 "Person" = true ∧ graph.ids.hasLabel 1 "Person" = false ∧
      ∃ column, graph.columns["age"]? = some column ∧ column.size = 2 ∧
        column.content? 0 = some (.long 4) ∧ column.content? 1 = some (.long Column.missingLong) := by
  obtain ⟨graph, hcompress⟩ := exists_compress_agedCalls
  obtain ⟨hids, hcolumns⟩ := nodes_are_read_back_as_added agedCalls hcompress
  obtain ⟨_, hage⟩ := hcolumns "age"
  rw [acceptedCalls_agedCalls] at hids hage
  obtain ⟨column, hcolumn, _, hsize, hentry⟩ := hage (7, .long 3) [(7, .long 4)] rfl
  have hfirst : graph.ids.original 0 = .ok 7 := (hids.original_eq_iff 0 7).mpr rfl
  have hsecond : graph.ids.original 1 = .ok 9 := (hids.original_eq_iff 1 9).mpr rfl
  refine ⟨graph, hcompress, hfirst, (hids.node?_eq_iff 9 1).mpr hsecond, ?_, ?_, column, hcolumn,
    hsize.trans hids.nodeCount_eq, (hentry 0 7 hfirst).trans rfl, (hentry 1 9 hsecond).trans rfl⟩
  · exact (hids.hasLabel_iff 0 "Person").mpr ⟨7, hfirst, List.mem_singleton_self _⟩
  · rw [← Bool.not_eq_true, hids.hasLabel_iff]
    rintro ⟨original, horiginal, hlabel⟩
    obtain rfl : (9 : UInt64) = original := Except.ok.inj (hsecond.symm.trans horiginal)
    exact absurd hlabel (by decide)

end PackedGraph
