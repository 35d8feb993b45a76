import Mathlib
import PackedGraph.Build.Builder
import PackedGraph.Proofs.Node.Members
import PackedGraph.Proofs.Running

/-!
# Sequences of builder calls

What a builder has collected after any sequence of calls is consistent: its ids are numbered without
gaps, its arcs join registered nodes and have a value for each key, and the values of a property
agree in type. The arcs are those of the accepted calls, in the order of the calls.
-/

namespace PackedGraph

/-! ## Ids -/

namespace IdMapBuilder

/-- The two directions of the numbering agree. -/
def Valid (builder : IdMapBuilder) : Prop :=
  ∀ original node, builder.node? original = some node ↔ builder.originals[node]? = some original

theorem valid_empty : empty.Valid := by
  intro original node
  simp [empty, node?]

theorem Valid.node_lt {builder : IdMapBuilder} (h : builder.Valid) {original : UInt64} {node : Nat}
    (hnode : builder.node? original = some node) : node < builder.nodeCount := by
  obtain ⟨hlt, _⟩ := Array.getElem?_eq_some_iff.mp ((h original node).mp hnode)
  exact hlt

/-- No original id has two numbers. -/
theorem Valid.nodup {builder : IdMapBuilder} (h : builder.Valid) :
    builder.originals.toList.Nodup := by
  rw [List.nodup_iff_getElem?_ne_getElem?]
  intro i j hij hj heq
  have hsize : j < builder.originals.size := by simpa using hj
  have hj' : builder.originals[j]? = some builder.originals[j] := Array.getElem?_eq_getElem hsize
  have hi' : builder.originals[i]? = some builder.originals[j] := by
    rw [← hj', ← Array.getElem?_toList, ← Array.getElem?_toList, heq]
  have hi := (h _ i).mpr hi'
  rw [(h _ j).mpr hj', Option.some_inj] at hi
  omega

theorem Valid.nodeCount_le {builder : IdMapBuilder} (h : builder.Valid) :
    builder.nodeCount ≤ 2 ^ 64 := by
  have hinjective : Function.Injective UInt64.toFin := fun a b hab ↦ UInt64.toFin_inj.mp hab
  have hle := (h.nodup.map hinjective).length_le_card
  rw [List.length_map, Array.length_toList, Fintype.card_fin] at hle
  exact hle

theorem node?_register (builder : IdMapBuilder) (original : UInt64) :
    (builder.register original).1.node? original = some (builder.register original).2 := by
  rw [register]
  cases hnode : builder.node? original with
  | some node => exact hnode
  | none => simp [node?]

/-- A number is never taken back. -/
theorem node?_register_of_some {builder : IdMapBuilder} {other : UInt64} {node : Nat}
    (h : builder.node? other = some node) (original : UInt64) :
    (builder.register original).1.node? other = some node := by
  rw [register]
  cases hnode : builder.node? original with
  | some node => exact h
  | none =>
    have hne : original ≠ other := by
      rintro rfl
      simp [h] at hnode
    simpa [node?, Std.HashMap.getElem?_insert, hne] using h

theorem Valid.register {builder : IdMapBuilder} (h : builder.Valid) (original : UInt64) :
    (builder.register original).1.Valid := by
  rw [IdMapBuilder.register]
  cases hnode : builder.node? original with
  | some node => exact h
  | none =>
    intro other node
    have hiff := h other node
    rw [node?] at hiff
    simp only [node?, nodeCount, Std.HashMap.getElem?_insert, Array.getElem?_push]
    by_cases heq : original = other
    · have hfresh : builder.originals[node]? ≠ some original := by
        intro hmem
        simp [(h original node).mpr hmem] at hnode
      rw [← heq, if_pos BEq.rfl]
      by_cases hlast : node = builder.originals.size
      · simp [hlast]
      · rw [if_neg hlast]
        exact iff_of_false (by simpa [eq_comm] using hlast) hfresh
    · rw [if_neg (by simpa using heq), hiff]
      by_cases hlast : node = builder.originals.size
      · simp [hlast, heq]
      · rw [if_neg hlast]

theorem nodeCount_le_register (builder : IdMapBuilder) (original : UInt64) :
    builder.nodeCount ≤ (builder.register original).1.nodeCount := by
  rw [register]
  cases builder.node? original with
  | some node => exact le_rfl
  | none => simp [nodeCount]

theorem addLabels_eq (builder : IdMapBuilder) (node : Nat) (labels : List Label) :
    ∃ members, builder.addLabels node labels = { builder with members } := by
  rw [addLabels]
  induction labels generalizing builder with
  | nil => exact ⟨builder.members, rfl⟩
  | cons label labels ih => exact ih (builder.addLabel node label)

theorem nodeCount_addLabels (builder : IdMapBuilder) (node : Nat) (labels : List Label) :
    (builder.addLabels node labels).nodeCount = builder.nodeCount := by
  obtain ⟨members, h⟩ := builder.addLabels_eq node labels
  rw [h]
  rfl

theorem Valid.addLabels {builder : IdMapBuilder} (h : builder.Valid) (node : Nat)
    (labels : List Label) : (builder.addLabels node labels).Valid := by
  obtain ⟨members, heq⟩ := builder.addLabels_eq node labels
  rw [heq]
  exact h

/-- A node is among the members of a label. -/
def HasMember (builder : IdMapBuilder) (node : Nat) (name : String) : Prop :=
  ∃ members, builder.members[name]? = some members ∧ node ∈ members

theorem hasMember_addLabel (builder : IdMapBuilder) (node : Nat) (label : Label) :
    (builder.addLabel node label).HasMember node label.name :=
  ⟨_, Std.TreeMap.getElem?_insert_self, Array.mem_push_self⟩

theorem HasMember.addLabel {builder : IdMapBuilder} {node : Nat} {name : String}
    (h : builder.HasMember node name) (other : Nat) (label : Label) :
    (builder.addLabel other label).HasMember node name := by
  obtain ⟨members, hmembers, hnode⟩ := h
  rw [HasMember, IdMapBuilder.addLabel, Std.TreeMap.getElem?_insert]
  by_cases hname : label.name = name
  · rw [if_pos (by simpa using hname), hname, Std.TreeMap.getD_eq_getD_getElem?, hmembers]
    exact ⟨_, rfl, Array.mem_push_of_mem _ hnode⟩
  · rw [if_neg (by simpa using hname)]
    exact ⟨members, hmembers, hnode⟩

theorem hasMember_addLabels (builder : IdMapBuilder) (node : Nat) {labels : List Label}
    {label : Label} (hlabel : label ∈ labels) :
    (builder.addLabels node labels).HasMember node label.name := by
  have hkeeps (builder : IdMapBuilder) (labels : List Label)
      (h : builder.HasMember node label.name) :
      (builder.addLabels node labels).HasMember node label.name := by
    rw [addLabels]
    induction labels generalizing builder with
    | nil => exact h
    | cons other labels ih => exact ih _ (h.addLabel node other)
  obtain ⟨earlier, later, rfl⟩ := List.append_of_mem hlabel
  rw [addLabels, List.foldl_append, List.foldl_cons]
  exact hkeeps _ later (hasMember_addLabel _ node label)

/-- A node carries the labels of which it is a member. -/
theorem HasMember.hasLabel {builder : IdMapBuilder} {node : Nat} {name : String}
    (h : builder.HasMember node name) : builder.build.hasLabel node name = true := by
  obtain ⟨members, hmembers, hnode⟩ := h
  rw [IdMap.hasLabel, IdMap.nodesWithLabel, build, Std.TreeMap.getElem?_map, hmembers]
  exact (IdMap.bisect_eq_true_iff (pairwise_sortMembers members) node).mpr
    (mem_sortMembers_iff.mpr hnode)

end IdMapBuilder

theorem IdMap.mem_labels_of_hasLabel {ids : IdMap} {node : Nat} {label : String}
    (h : ids.hasLabel node label = true) : label ∈ ids.labels := by
  rw [labels, Std.TreeMap.mem_keys, Std.TreeMap.mem_iff_isSome_getElem?]
  rw [hasLabel, nodesWithLabel] at h
  cases hmembers : ids.members[label]? with
  | none =>
    rw [hmembers] at h
    exact absurd h Bool.false_ne_true
  | some members => rfl

/-! ## Single calls -/

namespace GraphBuilder

variable (builder : GraphBuilder)

/-- The records of the properties after one more value. -/
def recorded (node : Nat) (properties : Std.TreeMap String PropertyRecord)
    (entry : String × PropertyValue) : Std.TreeMap String PropertyRecord :=
  let record := properties.getD entry.1 ⟨entry.2.type, #[]⟩
  properties.insert entry.1 { record with values := record.values.push (node, entry.2) }

theorem run_recordValues (node : Nat) (properties : List (String × PropertyValue)) :
    (properties.forM fun (key, value) ↦ recordValue node key value).run.run builder =
      (.ok (), { builder with
        properties := properties.foldl (recorded node) builder.properties }) := by
  induction properties generalizing builder with
  | nil => rfl
  | cons entry properties ih =>
    exact ih { builder with properties := recorded node builder.properties entry }

theorem run_declareKeys (keys : List String) :
    (declareKeys keys).run.run builder =
      if builder.arcs.isEmpty then (.ok (), { builder with keys })
      else (.error (.fault .keysDeclaredLate), builder) := by
  simp only [declareKeys, run_bind, run_get]
  split <;> rfl

theorem run_register (original : UInt64) :
    (register original).run.run builder =
      (.ok (builder.ids.register original).2,
        { builder with ids := (builder.ids.register original).1 }) := rfl

theorem run_readLabels (names : List String) :
    (readLabels names).run.run builder =
      ((Label.ofNames names).mapError .invalidLabel, builder) :=
  run_ofExcept _ builder

theorem run_addNode (original : UInt64) (names : List String) :
    (addNode original names).run.run builder =
      match Label.ofNames names with
      | .error error => (.error (.invalidLabel error), builder)
      | .ok labels =>
        let (ids, node) := builder.ids.register original
        (.ok node, { builder with ids := ids.addLabels node labels }) := by
  simp only [addNode, run_bind, run_readLabels]
  cases Label.ofNames names <;> rfl

theorem run_addNodeWithProperties (original : UInt64) (properties : List (String × PropertyValue))
    (names : List String) :
    (addNodeWithProperties original properties names).run.run builder =
      match Label.ofNames names, checkTypes builder.properties [] properties with
      | .error error, _ => (.error (.invalidLabel error), builder)
      | .ok _, .error error => (.error error, builder)
      | .ok labels, .ok () =>
        let (ids, node) := builder.ids.register original
        (.ok node, { builder with
          ids := ids.addLabels node labels
          properties := properties.foldl (recorded node) builder.properties }) := by
  simp only [addNodeWithProperties, run_bind, run_readLabels, run_get, run_ofExcept]
  cases Label.ofNames names with
  | error error => rfl
  | ok labels =>
    cases htypes : checkTypes builder.properties [] properties with
    | error error => simp only [Except.mapError, htypes]
    | ok _ =>
      simp only [Except.mapError, htypes, run_register, addLabels, run_modify, run_recordValues,
        run_pure]

theorem run_checkNode (node : Nat) :
    (checkNode node).run.run builder =
      if builder.nodeCount ≤ node then (.error (.unknownNode node builder.nodeCount), builder)
      else (.ok (), builder) := by
  simp only [checkNode, run_bind, run_get]
  split <;> rfl

theorem run_checkValueCount (values : Array ValueBits) :
    (checkValueCount values).run.run builder =
      if values.size ≠ builder.keys.length then
        (.error (.valueCount builder.keys.length values.size), builder)
      else (.ok (), builder) := by
  simp only [checkValueCount, run_bind, run_get]
  split <;> rfl

theorem run_addArc (source target : Nat) (values : Array ValueBits) :
    (addArc source target values).run.run builder =
      if builder.nodeCount ≤ source then
        (.error (.unknownNode source builder.nodeCount), builder)
      else if builder.nodeCount ≤ target then
        (.error (.unknownNode target builder.nodeCount), builder)
      else if values.size ≠ builder.keys.length then
        (.error (.valueCount builder.keys.length values.size), builder)
      else (.ok (), { builder with arcs := builder.arcs.push ⟨source, target, values⟩ }) := by
  simp only [addArc, run_bind, run_checkNode, run_checkValueCount, run_modify]
  by_cases hsource : builder.nodeCount ≤ source
  · simp only [if_pos hsource]
  by_cases htarget : builder.nodeCount ≤ target
  · simp only [if_neg hsource, if_pos htarget]
  by_cases hvalues : values.size ≠ builder.keys.length
  · simp only [if_neg hsource, if_neg htarget, if_pos hvalues]
  · simp only [if_neg hsource, if_neg htarget, if_neg hvalues]

/-- The values of an arc by original ids are counted before its ends are registered, and then
nothing is left to reject. -/
theorem run_addArcByOriginals (hids : builder.ids.Valid) (source target : UInt64)
    (values : Array ValueBits) :
    (addArcByOriginals source target values).run.run builder =
      if values.size ≠ builder.keys.length then
        (.error (.valueCount builder.keys.length values.size), builder)
      else
        let (ids, source) := builder.ids.register source
        let (ids, target) := ids.register target
        (.ok (), { builder with ids, arcs := builder.arcs.push ⟨source, target, values⟩ }) := by
  simp only [addArcByOriginals, run_bind, run_checkValueCount]
  split_ifs with hvalues
  · rfl
  · have hsourceIds := hids.register source
    have htargetIds := hsourceIds.register target
    have hsource := IdMapBuilder.node?_register_of_some
      (builder.ids.node?_register source) target
    have htarget := (builder.ids.register source).1.node?_register target
    have hsourceLt := htargetIds.node_lt hsource
    have htargetLt := htargetIds.node_lt htarget
    simp only [run_register, run_addArc, nodeCount]
    rw [if_neg (Nat.not_le.mpr hsourceLt), if_neg (Nat.not_le.mpr htargetLt), if_neg hvalues]

end GraphBuilder

/-! ## Sequences of calls -/

/-- A call on a builder. -/
inductive BuilderCall where
  | setOrientation (orientation : Orientation)
  | setAggregation (aggregation : Aggregation)
  | setDefaultValue (value : ValueBits)
  | setPageShift (shift : Nat)
  | setAccount (account : Account)
  | declareKeys (keys : List String)
  | register (original : UInt64)
  | addNode (original : UInt64) (labels : List String)
  | addNodeWithProperties (original : UInt64) (properties : List (String × PropertyValue))
      (labels : List String)
  | addArc (source target : Nat) (values : Array ValueBits)
  | addArcByOriginals (source target : UInt64) (values : Array ValueBits)

/-- The call itself, which answers with the node it is about, if any. -/
def BuilderCall.toCall : BuilderCall → GraphBuilder.Call (Option Nat)
  | setOrientation orientation => do
    modify fun builder ↦ { builder with orientation }
    return none
  | setAggregation aggregation => do
    modify fun builder ↦ { builder with aggregation }
    return none
  | setDefaultValue defaultValue => do
    modify fun builder ↦ { builder with defaultValue }
    return none
  | setPageShift pageShift => do
    modify fun builder ↦ { builder with pageShift }
    return none
  | setAccount account => do
    modify fun builder ↦ { builder with account }
    return none
  | declareKeys keys => do
    GraphBuilder.declareKeys keys
    return none
  | register original => some <$> GraphBuilder.register original
  | addNode original labels => some <$> GraphBuilder.addNode original labels
  | addNodeWithProperties original properties labels =>
    some <$> GraphBuilder.addNodeWithProperties original properties labels
  | addArc source target values => do
    GraphBuilder.addArc source target values
    return none
  | addArcByOriginals source target values => do
    GraphBuilder.addArcByOriginals source target values
    return none

/-- The arc that a call adds if it is accepted, in a graph with the given ids. -/
def BuilderCall.arcs (ids : IdMapBuilder) : BuilderCall → List Arc
  | addArc source target values => [⟨source, target, values⟩]
  | addArcByOriginals source target values =>
    match ids.node? source, ids.node? target with
    | some source, some target => [⟨source, target, values⟩]
    | _, _ => []
  | _ => []

namespace GraphBuilder

/-- The answer to a call, and the builder after it. -/
def perform (builder : GraphBuilder) (call : BuilderCall) :
    Except BuildError (Option Nat) × GraphBuilder :=
  call.toCall.run.run builder

def performAll (builder : GraphBuilder) (calls : List BuilderCall) : GraphBuilder :=
  calls.foldl (fun builder call ↦ (builder.perform call).2) builder

/-- The arcs of the calls that are accepted, in the order of the calls. -/
def acceptedArcs (builder : GraphBuilder) : List BuilderCall → List Arc
  | [] => []
  | call :: calls =>
    match builder.perform call with
    | (.ok _, after) => call.arcs after.ids ++ after.acceptedArcs calls
    | (.error _, after) => after.acceptedArcs calls

end GraphBuilder

/-! ## What all calls preserve -/

/-- The values of each property belong to nodes below a bound, and agree in type. -/
def ValidRecords (properties : Std.TreeMap String PropertyRecord) (nodeCount : Nat) : Prop :=
  ∀ (key : String) (record : PropertyRecord), properties[key]? = some record →
    ∀ entry ∈ record.values, entry.1 < nodeCount ∧ entry.2.type = record.type

/-- What a builder has collected is consistent. -/
structure GraphBuilder.Valid (builder : GraphBuilder) : Prop where
  ids : builder.ids.Valid
  records : ValidRecords builder.properties builder.nodeCount
  ends_lt : ∀ arc ∈ builder.arcs,
    arc.source < builder.nodeCount ∧ arc.target < builder.nodeCount
  size_values : ∀ arc ∈ builder.arcs, arc.values.size = builder.keys.length

theorem ValidRecords.mono {properties : Std.TreeMap String PropertyRecord} {n m : Nat}
    (h : ValidRecords properties n) (hle : n ≤ m) : ValidRecords properties m := by
  intro key record hrecord entry hentry
  obtain ⟨hlt, htype⟩ := h key record hrecord entry hentry
  exact ⟨hlt.trans_le hle, htype⟩

namespace GraphBuilder

theorem getElem?_recorded (node : Nat) (properties : Std.TreeMap String PropertyRecord)
    (entry : String × PropertyValue) (key : String) :
    (recorded node properties entry)[key]? =
      if entry.1 = key then
        let record := properties.getD entry.1 ⟨entry.2.type, #[]⟩
        some { record with values := record.values.push (node, entry.2) }
      else properties[key]? := by
  rw [recorded, Std.TreeMap.getElem?_insert]
  simp only [Std.LawfulEqCmp.compare_eq_iff_eq]

theorem type_recorded (node : Nat) (properties : Std.TreeMap String PropertyRecord)
    (entry : String × PropertyValue) (key : String) :
    (recorded node properties entry)[key]?.map PropertyRecord.type =
      if entry.1 = key then some ((properties[key]?.map PropertyRecord.type).getD entry.2.type)
      else properties[key]?.map PropertyRecord.type := by
  rw [getElem?_recorded]
  split_ifs with hkey
  · subst hkey
    rw [Std.TreeMap.getD_eq_getD_getElem?]
    cases properties[entry.1]? <;> rfl
  · rfl

theorem validRecords_recorded {properties : Std.TreeMap String PropertyRecord} {nodeCount : Nat}
    (h : ValidRecords properties nodeCount) {node : Nat} (hnode : node < nodeCount)
    {entry : String × PropertyValue}
    (htype : ∀ expected, properties[entry.1]?.map PropertyRecord.type = some expected →
      expected = entry.2.type) :
    ValidRecords (recorded node properties entry) nodeCount := by
  intro key record hrecord
  rw [getElem?_recorded] at hrecord
  split_ifs at hrecord with hkey
  · subst hkey
    rw [Option.some_inj] at hrecord
    subst hrecord
    rw [Std.TreeMap.getD_eq_getD_getElem?]
    intro value hvalue
    cases hold : properties[entry.1]? with
    | none =>
      have hvalue : value = (node, entry.2) := by simpa [hold] using hvalue
      subst hvalue
      exact ⟨hnode, rfl⟩
    | some old =>
      have holdType : old.type = entry.2.type := htype old.type (by rw [hold]; rfl)
      simp only [hold, Option.getD_some, Array.mem_push] at hvalue ⊢
      rcases hvalue with hvalue | hvalue
      · exact h entry.1 old hold value hvalue
      · exact ⟨hvalue ▸ hnode, hvalue ▸ holdType.symm⟩
  · exact h key record hrecord

/-! The check of types knows those of the records, and those of the values it has seen. -/

section Types

variable {before : Std.TreeMap String PropertyRecord} {seen : List (String × ValueType)}

/-- The type that a key is known to have in a check of types. -/
def knownType (before : Std.TreeMap String PropertyRecord) (seen : List (String × ValueType))
    (key : String) : Option ValueType :=
  (before[key]?.map PropertyRecord.type).or (seen.lookup key)

theorem knownType_nil (before : Std.TreeMap String PropertyRecord) (key : String) :
    knownType before [] key = before[key]?.map PropertyRecord.type := by
  rw [knownType, List.lookup_nil, Option.or_none]

theorem knownType_cons {key : String} (h : knownType before seen key = none) (type : ValueType)
    (other : String) :
    knownType before ((key, type) :: seen) other =
      if key = other then some ((knownType before seen other).getD type)
      else knownType before seen other := by
  by_cases hkey : key = other
  · subst hkey
    have hrecord := (Option.or_eq_none_iff.mp h).1
    rw [if_pos rfl, h, knownType, hrecord, List.lookup_cons, BEq.rfl]
    rfl
  · have hlookup : (other == key) = false := beq_eq_false_iff_ne.mpr (Ne.symm hkey)
    rw [if_neg hkey, knownType, List.lookup_cons, hlookup]
    rfl

theorem knownType_eq_ite {key : String} {expected : ValueType}
    (h : knownType before seen key = some expected) (type : ValueType) (other : String) :
    knownType before seen other =
      if key = other then some ((knownType before seen other).getD type)
      else knownType before seen other := by
  by_cases hkey : key = other
  · rw [if_pos hkey, ← hkey, h, Option.getD_some]
  · rw [if_neg hkey]

/-- Values that pass the check of types can be recorded. The types seen so far are those of the
records that a part of the values has been added to. -/
theorem validRecords_of_checkTypes {values : List (String × PropertyValue)}
    (hcheck : checkTypes before seen values = .ok ())
    {properties : Std.TreeMap String PropertyRecord}
    (hseen : ∀ key : String, properties[key]?.map PropertyRecord.type = knownType before seen key)
    {nodeCount : Nat} (h : ValidRecords properties nodeCount) {node : Nat}
    (hnode : node < nodeCount) :
    ValidRecords (values.foldl (recorded node) properties) nodeCount := by
  induction values generalizing seen properties with
  | nil => exact h
  | cons entry values ih =>
    obtain ⟨key, value⟩ := entry
    rw [checkTypes, ← knownType] at hcheck
    cases htype : knownType before seen key with
    | none =>
      simp only [htype] at hcheck
      refine ih hcheck (fun other ↦ ?_) (validRecords_recorded h hnode fun expected hother ↦ ?_)
      · rw [type_recorded, hseen other, knownType_cons htype]
      · rw [hseen key, htype] at hother
        exact nomatch hother
    | some expected =>
      simp only [htype] at hcheck
      split_ifs at hcheck with hexpected
      refine ih hcheck (fun other ↦ ?_) (validRecords_recorded h hnode fun other hother ↦ ?_)
      · rw [type_recorded, hseen other, ← knownType_eq_ite htype]
      · rw [hseen key, htype, Option.some_inj] at hother
        exact hother ▸ hexpected

end Types

theorem valid_new : new.Valid where
  ids := IdMapBuilder.valid_empty
  records := by
    intro key record hrecord
    simp [new] at hrecord
  ends_lt := by
    intro arc harc
    simp [new] at harc
  size_values := by
    intro arc harc
    simp [new] at harc

variable {builder : GraphBuilder}

/-- More ids, and more values for the nodes that have one. -/
theorem Valid.extend (h : builder.Valid) {ids : IdMapBuilder} (hids : ids.Valid)
    (hle : builder.nodeCount ≤ ids.nodeCount) {properties : Std.TreeMap String PropertyRecord}
    (hrecords : ValidRecords properties ids.nodeCount) :
    Valid { builder with ids, properties } := by
  refine ⟨hids, hrecords, fun arc harc ↦ ?_, h.size_values⟩
  obtain ⟨hsource, htarget⟩ := h.ends_lt arc harc
  exact ⟨hsource.trans_le hle, htarget.trans_le hle⟩

theorem Valid.register (h : builder.Valid) (original : UInt64) :
    Valid { builder with ids := (builder.ids.register original).1 } := by
  have hle := builder.ids.nodeCount_le_register original
  exact h.extend (h.ids.register original) hle (h.records.mono hle)

theorem Valid.addLabels (h : builder.Valid) (node : Nat) (labels : List Label) :
    Valid { builder with ids := builder.ids.addLabels node labels } := by
  have hle := (builder.ids.nodeCount_addLabels node labels).ge
  exact h.extend (h.ids.addLabels node labels) hle (h.records.mono hle)

theorem Valid.addNodeWithProperties (h : builder.Valid) (original : UInt64) (labels : List Label)
    {properties : List (String × PropertyValue)}
    (hcheck : checkTypes builder.properties [] properties = .ok ()) :
    let (ids, node) := builder.ids.register original
    Valid { builder with
      ids := ids.addLabels node labels
      properties := properties.foldl (recorded node) builder.properties } := by
  have hregistered := (h.register original).addLabels (builder.ids.register original).2 labels
  have hnode := (h.ids.register original).node_lt (builder.ids.node?_register original)
  refine hregistered.extend hregistered.ids le_rfl ?_
  refine validRecords_of_checkTypes hcheck (fun key ↦ ?_) hregistered.records ?_
  · exact (knownType_nil builder.properties key).symm
  · exact hnode.trans_eq (IdMapBuilder.nodeCount_addLabels _ _ labels).symm

theorem Valid.push (h : builder.Valid) {source target : Nat} {values : Array ValueBits}
    (hsource : source < builder.nodeCount) (htarget : target < builder.nodeCount)
    (hvalues : values.size = builder.keys.length) :
    Valid { builder with arcs := builder.arcs.push ⟨source, target, values⟩ } := by
  refine ⟨h.ids, h.records, fun arc harc ↦ ?_, fun arc harc ↦ ?_⟩
  · rcases Array.mem_push.mp harc with harc | rfl
    · exact h.ends_lt arc harc
    · exact ⟨hsource, htarget⟩
  · rcases Array.mem_push.mp harc with harc | rfl
    · exact h.size_values arc harc
    · exact hvalues

/-- A call is either rejected, and then nothing changes, or it is accepted, and then it adds its arc
to what is collected. -/
theorem perform_cases (h : builder.Valid) (call : BuilderCall) :
    (∃ error, builder.perform call = (.error error, builder)) ∨
      ∃ answer after, builder.perform call = (.ok answer, after) ∧ after.Valid ∧
        after.arcs.toList = builder.arcs.toList ++ call.arcs after.ids := by
  have hsame := (List.append_nil builder.arcs.toList).symm
  cases call with
  | setOrientation _ | setAggregation _ | setDefaultValue _ | setPageShift _ | setAccount _ =>
    exact .inr ⟨none, _, rfl, ⟨h.ids, h.records, h.ends_lt, h.size_values⟩, hsame⟩
  | declareKeys keys =>
    simp only [perform, BuilderCall.toCall, run_bind, run_declareKeys, run_pure]
    by_cases hempty : builder.arcs.isEmpty
    · have hnil : builder.arcs = #[] := Array.isEmpty_iff.mp hempty
      simp only [if_pos hempty]
      refine .inr ⟨none, _, rfl, ⟨h.ids, h.records, h.ends_lt, fun arc harc ↦ ?_⟩, hsame⟩
      simp [hnil] at harc
    · simp only [if_neg hempty]
      exact .inl ⟨_, rfl⟩
  | register original =>
    exact .inr ⟨_, _, rfl, h.register original, hsame⟩
  | addNode original labels =>
    simp only [perform, BuilderCall.toCall, run_map, run_addNode]
    cases Label.ofNames labels with
    | error error => exact .inl ⟨_, rfl⟩
    | ok labels => exact .inr ⟨_, _, rfl, (h.register original).addLabels _ labels, hsame⟩
  | addNodeWithProperties original properties labels =>
    simp only [perform, BuilderCall.toCall, run_map, run_addNodeWithProperties]
    cases Label.ofNames labels with
    | error error => exact .inl ⟨_, rfl⟩
    | ok labels =>
      cases hcheck : checkTypes builder.properties [] properties with
      | error error => exact .inl ⟨_, rfl⟩
      | ok _ => exact .inr ⟨_, _, rfl, h.addNodeWithProperties original labels hcheck, hsame⟩
  | addArc source target values =>
    simp only [perform, BuilderCall.toCall, run_bind, run_addArc, run_pure]
    by_cases hsource : builder.nodeCount ≤ source
    · simp only [if_pos hsource]
      exact .inl ⟨_, rfl⟩
    by_cases htarget : builder.nodeCount ≤ target
    · simp only [if_neg hsource, if_pos htarget]
      exact .inl ⟨_, rfl⟩
    by_cases hvalues : values.size ≠ builder.keys.length
    · simp only [if_neg hsource, if_neg htarget, if_pos hvalues]
      exact .inl ⟨_, rfl⟩
    · simp only [if_neg hsource, if_neg htarget, if_neg hvalues]
      refine .inr ⟨none, _, rfl, ?_, Array.toList_push⟩
      exact h.push (Nat.not_le.mp hsource) (Nat.not_le.mp htarget) (not_not.mp hvalues)
  | addArcByOriginals source target values =>
    simp only [perform, BuilderCall.toCall, run_bind, run_addArcByOriginals builder h.ids, run_pure]
    by_cases hvalues : values.size ≠ builder.keys.length
    · simp only [if_pos hvalues]
      exact .inl ⟨_, rfl⟩
    · simp only [if_neg hvalues]
      have hregistered := (h.register source).register target
      have hsource := IdMapBuilder.node?_register_of_some (builder.ids.node?_register source) target
      have htarget := (builder.ids.register source).1.node?_register target
      refine .inr ⟨none, _, rfl, hregistered.push (hregistered.ids.node_lt hsource)
        (hregistered.ids.node_lt htarget) (not_not.mp hvalues), ?_⟩
      simp only [BuilderCall.arcs, hsource, htarget]
      exact Array.toList_push

theorem Valid.perform (h : builder.Valid) (call : BuilderCall) :
    (builder.perform call).2.Valid := by
  rcases perform_cases h call with ⟨error, heq⟩ | ⟨answer, after, heq, hafter, _⟩
  · rw [heq]
    exact h
  · rw [heq]
    exact hafter

theorem Valid.performAll (h : builder.Valid) (calls : List BuilderCall) :
    (builder.performAll calls).Valid := by
  rw [GraphBuilder.performAll]
  induction calls generalizing builder with
  | nil => exact h
  | cons call calls ih => exact ih (h.perform call)

/-- The arcs of a builder are those of the accepted calls. -/
theorem arcs_performAll (h : builder.Valid) (calls : List BuilderCall) :
    (builder.performAll calls).arcs.toList = builder.arcs.toList ++ builder.acceptedArcs calls := by
  rw [GraphBuilder.performAll]
  induction calls generalizing builder with
  | nil => exact (List.append_nil _).symm
  | cons call calls ih =>
    rw [List.foldl_cons, acceptedArcs]
    rcases perform_cases h call with ⟨error, heq⟩ | ⟨answer, after, heq, hafter, harcs⟩
    · rw [heq]
      exact ih h
    · rw [heq]
      simp only
      rw [ih hafter, harcs, List.append_assoc]

end GraphBuilder

theorem BuilderCall.length_arcs_le (ids : IdMapBuilder) (call : BuilderCall) :
    (call.arcs ids).length ≤ 1 := by
  cases call with
  | addArc source target values => exact le_rfl
  | addArcByOriginals source target values =>
    rw [arcs]
    split
    · exact le_rfl
    · exact Nat.zero_le 1
  | _ => exact Nat.zero_le 1

theorem GraphBuilder.length_acceptedArcs_le (builder : GraphBuilder) (calls : List BuilderCall) :
    (builder.acceptedArcs calls).length ≤ calls.length := by
  induction calls generalizing builder with
  | nil => exact le_rfl
  | cons call calls ih =>
    rw [acceptedArcs, List.length_cons]
    obtain ⟨outcome, after⟩ := builder.perform call
    cases outcome with
    | error error => exact (ih after).trans (Nat.le_succ _)
    | ok answer =>
      calc (call.arcs after.ids ++ after.acceptedArcs calls).length
        _ = (call.arcs after.ids).length + (after.acceptedArcs calls).length := List.length_append
        _ ≤ 1 + calls.length := Nat.add_le_add (call.length_arcs_le _) (ih after)
        _ = calls.length + 1 := Nat.add_comm _ _

/-! ## Settings -/

/-- Whether a call brings data, and no settings. -/
def BuilderCall.isData : BuilderCall → Bool
  | register _ | addNode _ _ | addNodeWithProperties _ _ _ | addArc _ _ _
  | addArcByOriginals _ _ _ => true
  | _ => false

namespace GraphBuilder

/-- All that a builder holds besides the data. -/
def settings (builder : GraphBuilder) :
    Orientation × Aggregation × List String × ValueBits × Nat × Account :=
  (builder.orientation, builder.aggregation, builder.keys, builder.defaultValue, builder.pageShift,
    builder.account)

variable {builder : GraphBuilder}

theorem settings_perform (h : builder.Valid) {call : BuilderCall} (hcall : call.isData) :
    (builder.perform call).2.settings = builder.settings := by
  cases call with
  | register original => rfl
  | addNode original labels =>
    simp only [perform, BuilderCall.toCall, run_map, run_addNode]
    cases Label.ofNames labels <;> rfl
  | addNodeWithProperties original properties labels =>
    simp only [perform, BuilderCall.toCall, run_map, run_addNodeWithProperties]
    cases Label.ofNames labels with
    | error error => rfl
    | ok labels => cases checkTypes builder.properties [] properties <;> rfl
  | addArc source target values =>
    simp only [perform, BuilderCall.toCall, run_bind, run_addArc, run_pure]
    split_ifs <;> rfl
  | addArcByOriginals source target values =>
    simp only [perform, BuilderCall.toCall, run_bind, run_addArcByOriginals builder h.ids, run_pure]
    split_ifs <;> rfl
  | _ => exact absurd hcall Bool.false_ne_true

/-- Only one call sets the account. -/
theorem account_perform (h : builder.Valid) (call : BuilderCall) :
    (builder.perform call).2.account =
      match call with
      | .setAccount account => account
      | _ => builder.account := by
  have haccount (hcall : call.isData) : (builder.perform call).2.account = builder.account :=
    congrArg (fun settings ↦ settings.2.2.2.2.2) (settings_perform h hcall)
  cases call with
  | setOrientation _ | setAggregation _ | setDefaultValue _ | setPageShift _ | setAccount _ => rfl
  | declareKeys keys =>
    simp only [perform, BuilderCall.toCall, run_bind, run_declareKeys, run_pure]
    split_ifs <;> rfl
  | _ => exact haccount rfl

/-- Data does not change the settings. -/
theorem settings_performAll (h : builder.Valid) {calls : List BuilderCall}
    (hcalls : ∀ call ∈ calls, call.isData) :
    (builder.performAll calls).settings = builder.settings := by
  rw [performAll]
  induction calls generalizing builder with
  | nil => rfl
  | cons call calls ih =>
    have hcall := settings_perform h (hcalls call List.mem_cons_self)
    have hrest := ih (h.perform call)
      fun other hother ↦ hcalls other (List.mem_cons_of_mem _ hother)
    exact hrest.trans hcall

end GraphBuilder

end PackedGraph
