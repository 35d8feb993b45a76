import PackedGraph.Proofs.Build.Rejection

/-!
# What calls bring to the nodes

The accepted calls tell all that a builder knows of its nodes. Ids are numbered in the order in
which they are first mentioned, a label has the nodes for whose ids it was listed, and the record of
a property has the values that were given for it, in order.
-/

namespace PackedGraph

/-! ## Calls -/

namespace BuilderCall

/-- The original ids that a call mentions. -/
def mentions : BuilderCall → List UInt64
  | register original | addNode original _ | addNodeWithProperties original _ _ => [original]
  | addArcByOriginals source target _ => [source, target]
  | _ => []

/-- The labels that a call lists, each with the original id it is listed for. -/
def labelled : BuilderCall → List (UInt64 × String)
  | addNode original names | addNodeWithProperties original _ names => names.map (original, ·)
  | _ => []

/-- The values that a call gives for a key, each with the original id it is given for. -/
def valuesOf (key : String) : BuilderCall → List (UInt64 × PropertyValue)
  | addNodeWithProperties original properties _ =>
    (properties.filter (·.1 = key)).map fun entry ↦ (original, entry.2)
  | _ => []

end BuilderCall

theorem Label.map_name_of_ofNames {names : List String} {labels : List Label}
    (h : Label.ofNames names = .ok labels) : labels.map Label.name = names := by
  rw [← List.forall₂_eq_eq_eq, List.forall₂_map_left_iff]
  apply (forall₂_of_mapM_eq_ok h).flip.imp
  intro label name hname
  rw [Label.ofName] at hname
  split_ifs at hname
  obtain rfl := Except.ok.inj hname
  rfl

/-! ## Ids and labels -/

namespace IdMapBuilder

/-- The ids are numbered in the order in which they are first mentioned, and the members of a label
are the nodes for whose ids it is listed. -/
structure Registers (ids : IdMapBuilder) (mentioned : List UInt64)
    (labelled : List (UInt64 × String)) : Prop where
  originals_eq : ids.originals.toList = mentioned.eraseDups
  mentioned_of_labelled : ∀ entry ∈ labelled, entry.1 ∈ mentioned
  hasMember_iff : ∀ node name, ids.HasMember node name ↔
    ∃ original, ids.originals[node]? = some original ∧ (original, name) ∈ labelled
  populated : ∀ (name : String) (members : Array Nat), ids.members[name]? = some members →
    members ≠ #[]

variable {ids : IdMapBuilder} {mentioned : List UInt64} {labelled : List (UInt64 × String)}

theorem registers_empty : empty.Registers [] [] where
  originals_eq := rfl
  mentioned_of_labelled := nofun
  hasMember_iff := by
    intro node name
    simp [HasMember, empty]
  populated := by
    intro name members hmembers
    simp [empty] at hmembers

theorem members_register (ids : IdMapBuilder) (original : UInt64) :
    (ids.register original).1.members = ids.members := by
  rw [register]
  split <;> rfl

theorem originals_register (hvalid : ids.Valid) (original : UInt64) :
    (ids.register original).1.originals.toList =
      if original ∈ ids.originals then ids.originals.toList
      else ids.originals.toList ++ [original] := by
  have hmem : original ∈ ids.originals ↔ (ids.node? original).isSome := by
    rw [Array.mem_iff_getElem?, Option.isSome_iff_exists]
    exact exists_congr fun node ↦ (hvalid original node).symm
  rw [register]
  cases hnode : ids.node? original with
  | some node => rw [if_pos (hmem.mpr (hnode ▸ rfl))]
  | none =>
    rw [hnode] at hmem
    rw [if_neg fun h ↦ Bool.false_ne_true (hmem.mp h)]
    exact Array.toList_push

theorem Registers.register (h : ids.Registers mentioned labelled) (hvalid : ids.Valid)
    (original : UInt64) :
    (ids.register original).1.Registers (mentioned ++ [original]) labelled := by
  have hmem : original ∈ ids.originals ↔ original ∈ mentioned := by
    rw [← Array.mem_toList_iff, h.originals_eq, List.mem_eraseDups]
  have horiginals := originals_register hvalid original
  refine ⟨?_, fun entry hentry ↦ List.mem_append_left _ (h.mentioned_of_labelled entry hentry),
    fun node name ↦ ?_, ?_⟩
  · rw [horiginals, List.eraseDups_append, h.originals_eq]
    by_cases hold : original ∈ mentioned
    · simp [hmem, hold, List.removeAll]
    · simp [hmem, hold, List.removeAll, List.eraseDups_cons]
  · rw [HasMember, members_register]
    apply (h.hasMember_iff node name).trans
    apply exists_congr
    intro other
    apply and_congr_left
    intro hother
    -- A new id has no label yet.
    have hknown := h.mentioned_of_labelled _ hother
    rw [← Array.getElem?_toList, ← Array.getElem?_toList, horiginals]
    split_ifs with hold
    · rfl
    · rw [List.getElem?_append]
      split_ifs with hlt
      · rfl
      · refine iff_of_false ?_ fun hlast ↦ ?_
        · rw [List.getElem?_eq_none (not_lt.mp hlt)]
          exact Option.some_ne_none _ ∘ Eq.symm
        · obtain rfl := List.mem_singleton.mp (List.mem_of_getElem? hlast)
          exact hold (hmem.mpr hknown)
  · rw [members_register]
    exact h.populated

theorem hasMember_addLabel_iff (ids : IdMapBuilder) (other : Nat) (label : Label) (node : Nat)
    (name : String) :
    (ids.addLabel other label).HasMember node name ↔
      ids.HasMember node name ∨ node = other ∧ name = label.name := by
  rw [HasMember, HasMember, addLabel]
  simp only [Std.TreeMap.getElem?_insert, Std.LawfulEqCmp.compare_eq_iff_eq,
    Std.TreeMap.getD_eq_getD_getElem?]
  by_cases hname : label.name = name
  · subst hname
    simp only [if_true, Option.some_inj, exists_eq_left', Array.mem_push, and_true]
    cases ids.members[label.name]? with
    | none => simp
    | some members => simp
  · simp only [if_neg hname, Ne.symm hname, and_false, or_false]

theorem node?_addLabels (ids : IdMapBuilder) (node : Nat) (labels : List Label)
    (original : UInt64) : (ids.addLabels node labels).node? original = ids.node? original := by
  obtain ⟨members, h⟩ := ids.addLabels_eq node labels
  rw [h]
  rfl

theorem Registers.addLabel (h : ids.Registers mentioned labelled) (hvalid : ids.Valid) {node : Nat}
    {original : UInt64} (hnode : ids.originals[node]? = some original) (label : Label) :
    (ids.addLabel node label).Registers mentioned (labelled ++ [(original, label.name)]) := by
  refine ⟨h.originals_eq, fun entry hentry ↦ ?_, fun other name ↦ ?_, fun name members hmembers ↦ ?_⟩
  · rcases List.mem_append.mp hentry with hold | hnew
    · exact h.mentioned_of_labelled entry hold
    · obtain rfl := List.mem_singleton.mp hnew
      rw [← List.mem_eraseDups, ← h.originals_eq, Array.mem_toList_iff]
      exact Array.mem_of_getElem? hnode
  · rw [hasMember_addLabel_iff, h.hasMember_iff]
    simp only [List.mem_append, List.mem_singleton, Prod.mk.injEq]
    constructor
    · rintro (⟨known, hknown, hlabel⟩ | ⟨rfl, rfl⟩)
      · exact ⟨known, hknown, .inl hlabel⟩
      · exact ⟨original, hnode, .inr ⟨rfl, rfl⟩⟩
    · rintro ⟨known, hknown, hlabel | ⟨rfl, rfl⟩⟩
      · exact .inl ⟨known, hknown, hlabel⟩
      · have hsame := ((hvalid known other).mpr hknown).symm.trans ((hvalid known node).mpr hnode)
        exact .inr ⟨Option.some.inj hsame, rfl⟩
  · rw [IdMapBuilder.addLabel, Std.TreeMap.getElem?_insert] at hmembers
    split_ifs at hmembers
    · obtain rfl := Option.some.inj hmembers
      exact Array.push_ne_empty
    · exact h.populated name members hmembers

theorem Registers.addLabels (h : ids.Registers mentioned labelled) (hvalid : ids.Valid) {node : Nat}
    {original : UInt64} (hnode : ids.originals[node]? = some original) (labels : List Label) :
    (ids.addLabels node labels).Registers mentioned
      (labelled ++ labels.map fun label ↦ (original, label.name)) := by
  rw [IdMapBuilder.addLabels]
  induction labels generalizing ids labelled with
  | nil =>
    rw [List.map_nil, List.append_nil]
    exact h
  | cons label labels ih =>
    have hnext := ih (h.addLabel hvalid hnode label) (hvalid.addLabels node [label]) hnode
    rw [List.append_assoc] at hnext
    exact hnext

end IdMapBuilder

/-! ## Property records -/

/-- A record has the values that were given, at the nodes of the ids they were given for, and the
type of the first of them. There is none if no value was given. -/
def IdMapBuilder.Records (ids : IdMapBuilder) (record? : Option PropertyRecord)
    (given : List (UInt64 × PropertyValue)) : Prop :=
  match record? with
  | none => given = []
  | some record => given.head?.map (·.2.type) = some record.type ∧
    List.Forall₂ (fun entry other ↦ ids.node? other.1 = some entry.1 ∧ entry.2 = other.2)
      record.values.toList given

theorem IdMapBuilder.Records.mono {ids later : IdMapBuilder} {record? : Option PropertyRecord}
    {given : List (UInt64 × PropertyValue)} (h : ids.Records record? given)
    (hkept : ∀ original node, ids.node? original = some node →
      later.node? original = some node) : later.Records record? given := by
  cases record? with
  | none => exact h
  | some record => exact ⟨h.1, h.2.imp fun _ _ hentry ↦ ⟨hkept _ _ hentry.1, hentry.2⟩⟩

namespace GraphBuilder

theorem records_recorded {ids : IdMapBuilder} {properties : Std.TreeMap String PropertyRecord}
    {given : String → List (UInt64 × PropertyValue)}
    (h : ∀ key : String, ids.Records properties[key]? (given key)) {original : UInt64} {node : Nat}
    (hnode : ids.node? original = some node) (entry : String × PropertyValue) (key : String) :
    ids.Records (recorded node properties entry)[key]?
      (given key ++ if entry.1 = key then [(original, entry.2)] else []) := by
  rw [getElem?_recorded]
  split_ifs with hkey
  · subst hkey
    have hentry := h entry.1
    rw [Std.TreeMap.getD_eq_getD_getElem?]
    cases hrecord : properties[entry.1]? with
    | none =>
      rw [hrecord] at hentry
      have hnone : given entry.1 = [] := hentry
      rw [hnone]
      exact ⟨rfl, .cons ⟨hnode, rfl⟩ .nil⟩
    | some record =>
      rw [hrecord] at hentry
      obtain ⟨htype, hvalues⟩ := hentry
      refine ⟨?_, ?_⟩
      · obtain ⟨first, hfirst, htype⟩ := Option.map_eq_some_iff.mp htype
        rw [List.head?_append, hfirst]
        exact congrArg some htype
      · rw [Option.getD_some, Array.toList_push]
        exact List.rel_append hvalues (.cons ⟨hnode, rfl⟩ .nil)
  · rw [List.append_nil]
    exact h key

theorem records_foldl_recorded {ids : IdMapBuilder} {original : UInt64} {node : Nat}
    (hnode : ids.node? original = some node) (entries : List (String × PropertyValue))
    {properties : Std.TreeMap String PropertyRecord}
    {given : String → List (UInt64 × PropertyValue)}
    (h : ∀ key : String, ids.Records properties[key]? (given key)) (key : String) :
    ids.Records (entries.foldl (recorded node) properties)[key]?
      (given key ++ (entries.filter (·.1 = key)).map fun entry ↦ (original, entry.2)) := by
  induction entries generalizing properties given with
  | nil =>
    rw [List.filter_nil, List.map_nil, List.append_nil]
    exact h key
  | cons entry entries ih =>
    have hnext := ih (records_recorded h hnode entry)
    rw [List.append_assoc] at hnext
    rw [List.foldl_cons, List.filter_cons]
    by_cases hkey : entry.1 = key
    · simpa [hkey] using hnext
    · simpa [hkey] using hnext

/-! ## Sequences of calls -/

/-- What a builder knows of its nodes is what some calls have brought. -/
structure Reflects (builder : GraphBuilder) (calls : List BuilderCall) : Prop where
  registers : builder.ids.Registers (calls.flatMap BuilderCall.mentions)
    (calls.flatMap BuilderCall.labelled)
  records : ∀ key : String, builder.ids.Records builder.properties[key]?
    (calls.flatMap (BuilderCall.valuesOf key))

theorem reflects_new : new.Reflects [] where
  registers := IdMapBuilder.registers_empty
  records := by
    intro key
    have hnone : new.properties[key]? = none := Std.TreeMap.getElem?_emptyc
    rw [hnone]
    exact rfl

variable {builder : GraphBuilder} {done : List BuilderCall}

theorem reflects_append_singleton {call : BuilderCall}
    (hregisters : builder.ids.Registers (done.flatMap BuilderCall.mentions ++ call.mentions)
      (done.flatMap BuilderCall.labelled ++ call.labelled))
    (hrecords : ∀ key : String, builder.ids.Records builder.properties[key]?
      (done.flatMap (BuilderCall.valuesOf key) ++ call.valuesOf key)) :
    builder.Reflects (done ++ [call]) := by
  constructor
  · rw [List.flatMap_append, List.flatMap_append, List.flatMap_singleton, List.flatMap_singleton]
    exact hregisters
  · intro key
    rw [List.flatMap_append, List.flatMap_singleton]
    exact hrecords key

/-- A call that says nothing of nodes leaves them as they are. -/
theorem Reflects.of_eq (h : builder.Reflects done) {after : GraphBuilder} {call : BuilderCall}
    (hids : after.ids = builder.ids) (hproperties : after.properties = builder.properties)
    (hmentions : call.mentions = []) (hlabelled : call.labelled = [])
    (hvalues : ∀ key, call.valuesOf key = []) : after.Reflects (done ++ [call]) := by
  apply reflects_append_singleton
  · rw [hids, hmentions, hlabelled, List.append_nil, List.append_nil]
    exact h.registers
  · intro key
    rw [hids, hproperties, hvalues, List.append_nil]
    exact h.records key

/-- A call that registers an id, with labels or without. -/
theorem Reflects.registerWith (h : builder.Reflects done) (hvalid : builder.Valid)
    (original : UInt64) (labels : List Label) :
    ((builder.ids.register original).1.addLabels (builder.ids.register original).2 labels).Registers
        (done.flatMap BuilderCall.mentions ++ [original])
        (done.flatMap BuilderCall.labelled ++ labels.map fun label ↦ (original, label.name)) ∧
      ∀ key : String, ((builder.ids.register original).1.addLabels
        (builder.ids.register original).2 labels).Records builder.properties[key]?
          (done.flatMap (BuilderCall.valuesOf key)) := by
  have hregistered := hvalid.ids.register original
  have hnode := (hregistered original _).mp (builder.ids.node?_register original)
  constructor
  · exact (h.registers.register hvalid.ids original).addLabels hregistered hnode labels
  · intro key
    apply (h.records key).mono
    intro other node hother
    rw [IdMapBuilder.node?_addLabels]
    exact IdMapBuilder.node?_register_of_some hother original

theorem Reflects.addNode (h : builder.Reflects done) (hvalid : builder.Valid) {original : UInt64}
    {names : List String} {answer : Option Nat} {after : GraphBuilder}
    (hcall : builder.perform (.addNode original names) = (.ok answer, after)) :
    after.Reflects (done ++ [.addNode original names]) := by
  simp only [GraphBuilder.perform, BuilderCall.toCall, run_map, run_addNode] at hcall
  cases hlabels : Label.ofNames names with
  | error error =>
    rw [hlabels] at hcall
    cases hcall
  | ok labels =>
    rw [hlabels] at hcall
    obtain ⟨_, rfl⟩ := Prod.mk.inj hcall
    obtain ⟨hregisters, hrecords⟩ := h.registerWith hvalid original labels
    apply reflects_append_singleton
    · rw [BuilderCall.labelled, ← Label.map_name_of_ofNames hlabels, List.map_map]
      exact hregisters
    · intro key
      simpa [BuilderCall.valuesOf] using hrecords key

theorem Reflects.addNodeWithProperties (h : builder.Reflects done) (hvalid : builder.Valid)
    {original : UInt64} {properties : List (String × PropertyValue)} {names : List String}
    {answer : Option Nat} {after : GraphBuilder}
    (hcall : builder.perform (.addNodeWithProperties original properties names) =
      (.ok answer, after)) :
    after.Reflects (done ++ [.addNodeWithProperties original properties names]) := by
  simp only [GraphBuilder.perform, BuilderCall.toCall, run_map, run_addNodeWithProperties] at hcall
  cases hlabels : Label.ofNames names with
  | error error =>
    rw [hlabels] at hcall
    cases hcall
  | ok labels =>
    cases hcheck : checkTypes builder.properties [] properties with
    | error error =>
      rw [hlabels, hcheck] at hcall
      cases hcall
    | ok _ =>
      rw [hlabels, hcheck] at hcall
      obtain ⟨_, rfl⟩ := Prod.mk.inj hcall
      obtain ⟨hregisters, hrecords⟩ := h.registerWith hvalid original labels
      have hnode : ((builder.ids.register original).1.addLabels
          (builder.ids.register original).2 labels).node? original =
            some (builder.ids.register original).2 := by
        rw [IdMapBuilder.node?_addLabels]
        exact builder.ids.node?_register original
      apply reflects_append_singleton
      · rw [BuilderCall.labelled, ← Label.map_name_of_ofNames hlabels, List.map_map]
        exact hregisters
      · exact records_foldl_recorded hnode properties hrecords

theorem Reflects.addArcByOriginals (h : builder.Reflects done) (hvalid : builder.Valid)
    {source target : UInt64} {values : Array ValueBits} {answer : Option Nat} {after : GraphBuilder}
    (hcall : builder.perform (.addArcByOriginals source target values) = (.ok answer, after)) :
    after.Reflects (done ++ [.addArcByOriginals source target values]) := by
  simp only [GraphBuilder.perform, BuilderCall.toCall, run_bind,
    run_addArcByOriginals builder hvalid.ids, run_pure] at hcall
  split_ifs at hcall
  · cases hcall
  · obtain ⟨_, rfl⟩ := Prod.mk.inj hcall
    have hsource := h.registers.register hvalid.ids source
    have htarget := hsource.register (hvalid.ids.register source) target
    apply reflects_append_singleton
    · simpa [BuilderCall.mentions, BuilderCall.labelled] using htarget
    · intro key
      have hkept := (h.records key).mono fun original node hnode ↦
        IdMapBuilder.node?_register_of_some
          (IdMapBuilder.node?_register_of_some hnode source) target
      simpa [BuilderCall.valuesOf] using hkept

/-- An accepted call brings what it says. -/
theorem Reflects.perform (h : builder.Reflects done) (hvalid : builder.Valid) {call : BuilderCall}
    {answer : Option Nat} {after : GraphBuilder}
    (hcall : builder.perform call = (.ok answer, after)) : after.Reflects (done ++ [call]) := by
  cases call with
  | setOrientation _ | setAggregation _ | setDefaultValue _ | setPageShift _ | setAccount _ =>
    obtain ⟨_, rfl⟩ := Prod.mk.inj hcall
    exact h.of_eq rfl rfl rfl rfl fun _ ↦ rfl
  | declareKeys keys =>
    simp only [GraphBuilder.perform, BuilderCall.toCall, run_bind, run_declareKeys, run_pure] at hcall
    split_ifs at hcall
    · obtain ⟨_, rfl⟩ := Prod.mk.inj hcall
      exact h.of_eq rfl rfl rfl rfl fun _ ↦ rfl
    · cases hcall
  | register original =>
    obtain ⟨_, hafter⟩ := Prod.mk.inj hcall
    obtain rfl : { builder with ids := (builder.ids.register original).1 } = after := hafter
    obtain ⟨hregisters, hrecords⟩ := h.registerWith hvalid original []
    apply reflects_append_singleton
    · exact hregisters
    · intro key
      rw [BuilderCall.valuesOf, List.append_nil]
      · exact hrecords key
      · rintro _ _ _ ⟨⟩
  | addNode original names => exact h.addNode hvalid hcall
  | addNodeWithProperties original properties names =>
    exact h.addNodeWithProperties hvalid hcall
  | addArc source target values =>
    simp only [GraphBuilder.perform, BuilderCall.toCall, run_bind, run_addArc, run_pure] at hcall
    split_ifs at hcall
    · cases hcall
    · cases hcall
    · cases hcall
    · obtain ⟨_, rfl⟩ := Prod.mk.inj hcall
      exact h.of_eq rfl rfl rfl rfl fun _ ↦ rfl
  | addArcByOriginals source target values => exact h.addArcByOriginals hvalid hcall

/-- A builder knows of its nodes what the accepted calls have brought. -/
theorem Reflects.performAll (h : builder.Reflects done) (hvalid : builder.Valid)
    (calls : List BuilderCall) :
    (builder.performAll calls).Reflects (done ++ builder.acceptedCalls calls) := by
  induction calls generalizing builder done with
  | nil =>
    rw [acceptedCalls, List.append_nil]
    exact h
  | cons call calls ih =>
    rw [acceptedCalls, performAll_cons]
    rcases perform_cases hvalid call with ⟨error, heq⟩ | ⟨answer, after, heq, hafter, _⟩
    · rw [heq]
      exact ih h hvalid
    · have hnext := ih (h.perform hvalid heq) hafter
      rw [List.append_assoc] at hnext
      rw [heq]
      exact hnext

end GraphBuilder

end PackedGraph
