import Mathlib
import PackedGraph.Proofs.Build.Calls

/-!
# Rejected calls

A rejected call changes nothing, so a sequence of builder calls does the same without the calls
that are rejected in it. Which property values are rejected depends only on the values of the calls
accepted before: two values of a key must not differ in type.
-/

namespace PackedGraph

/-! ## Types of property values -/

/-- Some values can be added to those given before: no two values of a key differ in type. -/
def TypesAgree (given values : List (String × PropertyValue)) : Prop :=
  ∀ entry ∈ values, ∀ other ∈ given ++ values, other.1 = entry.1 → other.2.type = entry.2.type

/-- The types that are looked up for the keys are those of the given values. -/
def TypesOf (given : List (String × PropertyValue)) (type? : String → Option ValueType) : Prop :=
  ∀ key type, type? key = some type ↔ ∃ value, (key, value) ∈ given ∧ value.type = type

section Types

variable {given values : List (String × PropertyValue)} {type? : String → Option ValueType}

/-- A value is added whose type is recorded for its key, unless the key has that type already. -/
theorem TypesOf.append_singleton (h : TypesOf given type?) {entry : String × PropertyValue}
    (hagree : ∀ type, type? entry.1 = some type → type = entry.2.type)
    {next? : String → Option ValueType}
    (hnext : ∀ key, next? key =
      if entry.1 = key then some ((type? key).getD entry.2.type) else type? key) :
    TypesOf (given ++ [entry]) next? := by
  obtain ⟨name, last⟩ := entry
  intro key type
  simp only [hnext, List.mem_append, List.mem_singleton, Prod.mk.injEq]
  by_cases hkey : name = key
  · subst hkey
    have htype : (type? name).getD last.type = last.type := by
      cases hknown : type? name with
      | none => rfl
      | some known => exact hagree known hknown
    rw [if_pos rfl, htype, Option.some_inj]
    constructor
    · rintro rfl
      exact ⟨last, .inr ⟨rfl, rfl⟩, rfl⟩
    · rintro ⟨value, hgiven | ⟨_, rfl⟩, rfl⟩
      · exact (hagree _ ((h name _).mpr ⟨value, hgiven, rfl⟩)).symm
      · rfl
  · have hother (value : PropertyValue) : ¬ (key = name ∧ value = last) :=
      fun heq ↦ hkey heq.1.symm
    simp only [if_neg hkey, hother, or_false]
    exact h key type

theorem typesAgree_cons {entry : String × PropertyValue} :
    TypesAgree given (entry :: values) ↔
      (∀ other ∈ given, other.1 = entry.1 → other.2.type = entry.2.type) ∧
        TypesAgree (given ++ [entry]) values := by
  have hperm : given ++ [entry] ++ values = given ++ (entry :: values) := by
    rw [List.append_assoc, List.singleton_append]
  constructor
  · intro h
    refine ⟨fun other hother ↦ h entry List.mem_cons_self other (List.mem_append_left _ hother),
      fun value hvalue other hother ↦ ?_⟩
    rw [hperm] at hother
    exact h value (List.mem_cons_of_mem _ hvalue) other hother
  · rintro ⟨hentry, hvalues⟩ value hvalue other hother hkey
    rw [← hperm] at hother
    rcases List.mem_cons.mp hvalue with rfl | hvalue
    · rcases List.mem_append.mp hother with hother | hother
      · rcases List.mem_append.mp hother with hgiven | hsame
        · exact hentry other hgiven hkey
        · rw [List.mem_singleton.mp hsame]
      · have hself : value ∈ given ++ [value] ++ values := by simp
        exact (hvalues other hother value hself hkey.symm).symm
    · exact hvalues value hvalue other hother hkey

theorem TypesOf.forall_iff (h : TypesOf given type?) {entry : String × PropertyValue} :
    (∀ other ∈ given, other.1 = entry.1 → other.2.type = entry.2.type) ↔
      ∀ type, type? entry.1 = some type → type = entry.2.type := by
  constructor
  · intro hgiven type htype
    obtain ⟨value, hvalue, rfl⟩ := (h entry.1 type).mp htype
    exact hgiven (entry.1, value) hvalue rfl
  · rintro htypes ⟨key, value⟩ hother rfl
    exact htypes value.type ((h entry.1 value.type).mpr ⟨value, hother, rfl⟩)

/-- The check of types accepts the values that agree with those given before. -/
theorem checkTypes_eq_ok_iff {before : Std.TreeMap String PropertyRecord}
    {seen : List (String × ValueType)} (h : TypesOf given (GraphBuilder.knownType before seen)) :
    GraphBuilder.checkTypes before seen values = .ok () ↔ TypesAgree given values := by
  induction values generalizing given seen with
  | nil => exact iff_of_true rfl nofun
  | cons entry values ih =>
    rw [typesAgree_cons, h.forall_iff]
    obtain ⟨key, value⟩ := entry
    rw [GraphBuilder.checkTypes, ← GraphBuilder.knownType]
    cases htype : GraphBuilder.knownType before seen key with
    | none =>
      have hagree : ∀ type, none = some type → type = value.type := by rintro type ⟨⟩
      have hnext : TypesOf (given ++ [(key, value)])
          (GraphBuilder.knownType before ((key, value.type) :: seen)) :=
        h.append_singleton (htype ▸ hagree) (GraphBuilder.knownType_cons htype value.type)
      simp only [ih hnext]
      exact (and_iff_right hagree).symm
    | some expected =>
      simp only [Option.some_inj, forall_eq']
      by_cases hexpected : expected = value.type
      · have hagree : ∀ type, some expected = some type → type = value.type :=
          fun type heq ↦ (Option.some_inj.mp heq).symm.trans hexpected
        have hnext : TypesOf (given ++ [(key, value)]) (GraphBuilder.knownType before seen) :=
          h.append_singleton (htype ▸ hagree) (GraphBuilder.knownType_eq_ite htype value.type)
        rw [if_pos hexpected, ih hnext, and_iff_right hexpected]
      · rw [if_neg hexpected]
        refine iff_of_false (fun hok ↦ ?_) fun hboth ↦ hexpected hboth.1
        cases hok

end Types

/-! ## What is accepted -/

/-- The property values that a call brings. -/
def BuilderCall.properties : BuilderCall → List (String × PropertyValue)
  | addNodeWithProperties _ properties _ => properties
  | _ => []

namespace GraphBuilder

/-- The answers to all calls of a sequence. -/
def answers (builder : GraphBuilder) : List BuilderCall → List (Except BuildError (Option Nat))
  | [] => []
  | call :: calls => (builder.perform call).1 :: (builder.perform call).2.answers calls

/-- The calls of a sequence that are accepted. -/
def acceptedCalls (builder : GraphBuilder) : List BuilderCall → List BuilderCall
  | [] => []
  | call :: calls =>
    match builder.perform call with
    | (.ok _, after) => call :: after.acceptedCalls calls
    | (.error _, after) => after.acceptedCalls calls

variable {builder : GraphBuilder} {given : List (String × PropertyValue)}

theorem performAll_cons (call : BuilderCall) (calls : List BuilderCall) :
    builder.performAll (call :: calls) = (builder.perform call).2.performAll calls := rfl

/-- A sequence does the same without its rejected calls, which the others do not notice. -/
theorem Valid.performAll_acceptedCalls (h : builder.Valid) (calls : List BuilderCall) :
    builder.performAll (builder.acceptedCalls calls) = builder.performAll calls ∧
      builder.answers (builder.acceptedCalls calls) = (builder.answers calls).filter (·.isOk) := by
  induction calls generalizing builder with
  | nil => exact ⟨rfl, rfl⟩
  | cons call calls ih =>
    rw [acceptedCalls, performAll_cons, answers]
    rcases perform_cases h call with ⟨error, heq⟩ | ⟨answer, after, heq, hafter, _⟩
    · obtain ⟨hbuilder, hanswers⟩ := ih h
      rw [heq, List.filter_cons_of_neg Bool.false_ne_true]
      exact ⟨hbuilder, hanswers⟩
    · obtain ⟨hbuilder, hanswers⟩ := ih hafter
      simp only [heq]
      rw [performAll_cons, answers, heq, List.filter_cons_of_pos rfl, hanswers]
      exact ⟨hbuilder, rfl⟩

/-- The types of the properties are those of the given values. -/
def HasTypesOf (builder : GraphBuilder) (given : List (String × PropertyValue)) : Prop :=
  TypesOf given fun key ↦ builder.properties[key]?.map PropertyRecord.type

theorem hasTypesOf_new : new.HasTypesOf [] := by
  intro key type
  simp [new]

theorem HasTypesOf.checkTypes_eq_ok_iff (h : builder.HasTypesOf given)
    (values : List (String × PropertyValue)) :
    checkTypes builder.properties [] values = .ok () ↔ TypesAgree given values := by
  apply PackedGraph.checkTypes_eq_ok_iff
  rw [funext (knownType_nil builder.properties)]
  exact h

/-- Values that agree with those given before can be recorded. -/
theorem typesOf_foldl_recorded {properties : Std.TreeMap String PropertyRecord}
    {values : List (String × PropertyValue)}
    (h : TypesOf given fun key ↦ properties[key]?.map PropertyRecord.type)
    (hagree : TypesAgree given values) (node : Nat) :
    TypesOf (given ++ values) fun key ↦
      (values.foldl (recorded node) properties)[key]?.map PropertyRecord.type := by
  induction values generalizing given properties with
  | nil =>
    rw [List.append_nil]
    exact h
  | cons entry values ih =>
    obtain ⟨hentry, hvalues⟩ := typesAgree_cons.mp hagree
    have htypes := h.forall_iff.mp hentry
    have hrecorded := h.append_singleton htypes (type_recorded node properties entry)
    have hnext := ih hrecorded hvalues
    rw [List.append_assoc, List.singleton_append] at hnext
    exact hnext

/-- A node with properties is accepted if its labels are valid and its values have the right types,
and then the values are recorded. -/
theorem perform_addNodeWithProperties (original : UInt64)
    (properties : List (String × PropertyValue)) (names : List String) :
    (∃ error, builder.perform (.addNodeWithProperties original properties names) =
        (.error error, builder)) ∧
      ((∃ error, Label.ofNames names = .error error) ∨
        checkTypes builder.properties [] properties ≠ .ok ()) ∨
    ∃ node after, builder.perform (.addNodeWithProperties original properties names) =
        (.ok (some node), after) ∧
      (∃ labels, Label.ofNames names = .ok labels) ∧
      checkTypes builder.properties [] properties = .ok () ∧
      after.properties = properties.foldl (recorded node) builder.properties := by
  simp only [perform, BuilderCall.toCall, run_map, run_addNodeWithProperties]
  cases Label.ofNames names with
  | error error => exact .inl ⟨⟨_, rfl⟩, .inl ⟨error, rfl⟩⟩
  | ok labels =>
    cases checkTypes builder.properties [] properties with
    | error error =>
      refine .inl ⟨⟨error, rfl⟩, .inr fun hok ↦ ?_⟩
      cases hok
    | ok _ => exact .inr ⟨_, _, rfl, ⟨labels, rfl⟩, rfl, rfl⟩

/-- The other calls bring no property values. -/
theorem properties_perform (h : builder.Valid) {call : BuilderCall}
    (hcall : ∀ original properties names,
      call ≠ .addNodeWithProperties original properties names) :
    call.properties = [] ∧ (builder.perform call).2.properties = builder.properties := by
  cases call with
  | setOrientation _ | setAggregation _ | setDefaultValue _ | setPageShift _ | setAccount _
  | register _ => exact ⟨rfl, rfl⟩
  | declareKeys keys =>
    simp only [perform, BuilderCall.toCall, run_bind, run_declareKeys, run_pure]
    cases builder.arcs.isEmpty <;> exact ⟨rfl, rfl⟩
  | addNode original labels =>
    simp only [perform, BuilderCall.toCall, run_map, run_addNode]
    cases Label.ofNames labels <;> exact ⟨rfl, rfl⟩
  | addNodeWithProperties original properties names =>
    exact absurd rfl (hcall original properties names)
  | addArc source target values =>
    simp only [perform, BuilderCall.toCall, run_bind, run_addArc, run_pure]
    split_ifs <;> exact ⟨rfl, rfl⟩
  | addArcByOriginals source target values =>
    simp only [perform, BuilderCall.toCall, run_bind, run_addArcByOriginals builder h.ids, run_pure]
    split_ifs <;> exact ⟨rfl, rfl⟩

theorem HasTypesOf.perform (htypes : builder.HasTypesOf given) (h : builder.Valid)
    {call : BuilderCall} {answer : Option Nat} {after : GraphBuilder}
    (hcall : builder.perform call = (.ok answer, after)) :
    after.HasTypesOf (given ++ call.properties) := by
  by_cases hkind : ∃ original properties names,
      call = .addNodeWithProperties original properties names
  · obtain ⟨original, properties, names, rfl⟩ := hkind
    rcases builder.perform_addNodeWithProperties original properties names with
      ⟨⟨error, hrejected⟩, _⟩ | ⟨node, final, haccepted, _, hcheck, hproperties⟩
    · exact nomatch hrejected.symm.trans hcall
    · obtain ⟨_, rfl⟩ := Prod.mk.inj (haccepted.symm.trans hcall)
      have hagree := (htypes.checkTypes_eq_ok_iff properties).mp hcheck
      rw [HasTypesOf, hproperties]
      exact typesOf_foldl_recorded htypes hagree node
  · have hother : ∀ original properties names,
        call ≠ .addNodeWithProperties original properties names :=
      fun original properties names heq ↦ hkind ⟨original, properties, names, heq⟩
    obtain ⟨hnone, hproperties⟩ := properties_perform h hother
    rw [hcall] at hproperties
    rw [HasTypesOf, hproperties, hnone, List.append_nil]
    exact htypes

/-- The types of the properties are those of the values that the accepted calls bring. -/
theorem HasTypesOf.performAll (htypes : builder.HasTypesOf given) (h : builder.Valid)
    (calls : List BuilderCall) :
    (builder.performAll calls).HasTypesOf
      (given ++ (builder.acceptedCalls calls).flatMap BuilderCall.properties) := by
  induction calls generalizing builder given with
  | nil =>
    rw [acceptedCalls, List.flatMap_nil, List.append_nil]
    exact htypes
  | cons call calls ih =>
    rw [acceptedCalls, performAll_cons]
    rcases perform_cases h call with ⟨error, heq⟩ | ⟨answer, after, heq, hafter, _⟩
    · rw [heq]
      exact ih htypes h
    · have hnext := ih (htypes.perform h heq) hafter
      rw [List.append_assoc, ← List.flatMap_cons] at hnext
      rw [heq]
      exact hnext

theorem perform_addArcByOriginals_error_iff (h : builder.Valid) (source target : UInt64)
    (values : Array ValueBits) :
    (∃ error, builder.perform (.addArcByOriginals source target values) = (.error error, builder)) ↔
      values.size ≠ builder.keys.length := by
  simp only [perform, BuilderCall.toCall, run_bind, run_addArcByOriginals builder h.ids, run_pure]
  by_cases hvalues : values.size ≠ builder.keys.length
  · simp only [if_pos hvalues]
    exact iff_of_true ⟨_, rfl⟩ hvalues
  · simp only [if_neg hvalues]
    refine iff_of_false ?_ hvalues
    rintro ⟨error, herror⟩
    cases congrArg Prod.fst herror

end GraphBuilder

/-- A sequence of calls on a new builder does the same without the calls that are rejected in it:
the others get the same answers, and the builder ends up the same. After it, an arc between original
ids is rejected if the number of its values is wrong, and a node with properties if a label is
invalid or a value differs in type from one given before or from another one of the same call.
Nothing of what is rejected is kept. -/
theorem rejected_calls_leave_no_trace (calls : List BuilderCall) :
    let builder := GraphBuilder.new.performAll calls
    let accepted := GraphBuilder.new.acceptedCalls calls
    GraphBuilder.new.performAll accepted = builder ∧
    GraphBuilder.new.answers accepted = (GraphBuilder.new.answers calls).filter (·.isOk) ∧
    (∀ source target values,
      (∃ error, builder.perform (.addArcByOriginals source target values) =
          (.error error, builder)) ↔
        values.size ≠ builder.keys.length) ∧
    ∀ original properties names,
      (∃ error, builder.perform (.addNodeWithProperties original properties names) =
          (.error error, builder)) ↔
        (∃ error, Label.ofNames names = .error error) ∨
          ¬ TypesAgree (accepted.flatMap BuilderCall.properties) properties := by
  intro builder accepted
  have hvalid : builder.Valid := GraphBuilder.valid_new.performAll calls
  have htypes : builder.HasTypesOf (accepted.flatMap BuilderCall.properties) :=
    GraphBuilder.hasTypesOf_new.performAll GraphBuilder.valid_new calls
  obtain ⟨hbuilder, hanswers⟩ := GraphBuilder.valid_new.performAll_acceptedCalls calls
  refine ⟨hbuilder, hanswers, builder.perform_addArcByOriginals_error_iff hvalid,
    fun original properties names ↦ ?_⟩
  have hcheck := htypes.checkTypes_eq_ok_iff properties
  rcases builder.perform_addNodeWithProperties original properties names with
    ⟨hrejected, hcause⟩ | ⟨node, after, haccepted, ⟨labels, hlabels⟩, hok, _⟩
  · rw [Ne, hcheck] at hcause
    exact iff_of_true hrejected hcause
  · apply iff_of_false
    · rintro ⟨error, hrejected⟩
      exact nomatch haccepted.symm.trans hrejected
    · rintro (⟨error, hinvalid⟩ | hdisagree)
      · exact nomatch hlabels.symm.trans hinvalid
      · exact hdisagree (hcheck.mp hok)

end PackedGraph
