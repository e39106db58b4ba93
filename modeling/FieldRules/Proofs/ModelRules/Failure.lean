import FieldRules.Proofs.Attribute.OwnRefinements
import FieldRules.Proofs.Reading.Keeps

namespace FieldRules.Attribute

/-! An attribute cannot be compiled where no type is found for it, and where its type is a choice
that has no values. Nothing else goes wrong. -/

variable {attr : Attribute} {resolved : ResolvedType}

/-- No type is found: none is given, two answers leave one to ask for, or what is at hand then
has no name. -/
inductive LacksType (attr : Attribute) : Prop
  | absent (untyped : attr.typeRef = none)
  | asking {ref : TypeRef} (typed : attr.typeRef = some ref)
      (asks : ref.ask.ask.description? = none)
  | nameless {ref : TypeRef} {description : TypeDescription} (typed : attr.typeRef = some ref)
      (found : ref.ask.ask.description? = some description)
      (unnamed : description.name = none ∨ description.name = some "")

/-- The type is a choice, and neither the type nor the attribute says among which values. -/
def LacksValues (attr : Attribute) : Prop :=
  ∃ ref description, attr.typeRef = some ref ∧ ref.ask.ask.description? = some description ∧
    description.name = some "enum" ∧ description.values = none ∧ attr.values = none

theorem lacksType_or_resolvesTo (attr : Attribute) :
    attr.LacksType ∨ ∃ resolved, attr.ResolvesTo resolved := by
  cases typed : attr.typeRef with
  | none => exact Or.inl (.absent typed)
  | some ref =>
      cases found : ref.ask.ask.description? with
      | none => exact Or.inl (.asking typed found)
      | some description =>
          cases resolution : description.resolve with
          | error reason =>
              exact Or.inl (.nameless typed found
                (TypeDescription.resolve_error_iff.mp resolution).2)
          | ok resolved =>
              refine Or.inr ⟨resolved, ref, typed, ?_⟩
              rw [TypeRef.resolve_eq, found]
              exact resolution

theorem LacksType.compile_eq (lacks : attr.LacksType) (modelName key : String) :
    attr.compile modelName key = .error (.missingType modelName key) := by
  have unresolved : ∀ reason {ref}, attr.typeRef = some ref → ref.resolve = .error reason →
      attr.compile modelName key = .error (.missingType modelName key) := by
    intro reason ref typed resolution
    simp only [compile, typed, Option.map_some, resolution]
  cases lacks with
  | absent untyped => simp only [compile, untyped, Option.map_none]
  | asking typed asks => exact unresolved .diverged typed (by rw [TypeRef.resolve_eq, asks])
  | nameless typed found unnamed =>
      refine unresolved .missing typed ?_
      rw [TypeRef.resolve_eq, found]
      exact TypeDescription.resolve_error_iff.mpr ⟨rfl, unnamed⟩

theorem ResolvesTo.lacksValues_iff (resolves : attr.ResolvesTo resolved) :
    attr.LacksValues ↔ attr.standard? resolved = none := by
  obtain ⟨ref, typed, resolution⟩ := resolves
  have found := (TypeRef.resolve_ok_iff.mp resolution).1
  have unlisted : attr.standard? resolved = none ↔
      resolved.name = "enum" ∧ resolved.values = none ∧ attr.values = none := by
    rw [standard?_eq]
    split
    · next listed => simp [listed]
    · next unlisted => simp [unlisted]
  rw [unlisted]
  constructor
  · rintro ⟨other, description, otherTyped, otherFound, listed, typeValues, ownValues⟩
    obtain rfl : ref = other := Option.some.inj (typed.symm.trans otherTyped)
    obtain rfl : resolved.description = description :=
      Option.some.inj (found.symm.trans otherFound)
    exact ⟨Option.some.inj listed, typeValues, ownValues⟩
  · rintro ⟨listed, typeValues, ownValues⟩
    exact ⟨ref, resolved.description, typed, found, congrArg some listed, typeValues, ownValues⟩

theorem LacksValues.compile_eq (lacks : attr.LacksValues) (modelName key : String) :
    attr.compile modelName key = .error (.missingValues modelName key) := by
  obtain ⟨ref, description, typed, found, listed, _⟩ := id lacks
  have resolves : attr.ResolvesTo ⟨"enum", description.values, description.precision,
      description.max, description.format⟩ := by
    refine ⟨ref, typed, TypeRef.resolve_ok_iff.mpr ⟨?_, show "enum" ≠ "" by decide⟩⟩
    rw [found, ResolvedType.description, ← listed]
  rw [resolves.compile_eq, resolves.lacksValues_iff.mp lacks]

theorem LacksValues.not_lacksType (lacks : attr.LacksValues) : ¬ attr.LacksType := by
  intro lacksType
  have failed := lacks.compile_eq "" ""
  simp [lacksType.compile_eq] at failed

/-- An attribute that lacks neither a type nor values is compiled. -/
theorem compile_cases (attr : Attribute) (modelName key : String) :
    attr.LacksType ∨ attr.LacksValues ∨ ∃ field, attr.compile modelName key = .ok field := by
  rcases attr.lacksType_or_resolvesTo with lacks | ⟨resolved, resolves⟩
  · exact Or.inl lacks
  · refine Or.inr ?_
    rw [resolves.lacksValues_iff, resolves.compile_eq]
    cases attr.standard? resolved with
    | none => exact Or.inl rfl
    | some standard => exact Or.inr ⟨_, rfl⟩

theorem compile_eq_missingType_iff {modelName key : String} :
    attr.compile modelName key = .error (.missingType modelName key) ↔ attr.LacksType := by
  refine ⟨fun failed => ?_, fun lacks => lacks.compile_eq modelName key⟩
  rcases attr.compile_cases modelName key with lacks | lacks | ⟨field, compiled⟩
  · exact lacks
  · simp [lacks.compile_eq] at failed
  · simp [compiled] at failed

theorem compile_eq_missingValues_iff {modelName key : String} :
    attr.compile modelName key = .error (.missingValues modelName key) ↔ attr.LacksValues := by
  refine ⟨fun failed => ?_, fun lacks => lacks.compile_eq modelName key⟩
  rcases attr.compile_cases modelName key with lacks | lacks | ⟨field, compiled⟩
  · simp [lacks.compile_eq] at failed
  · exact lacks
  · simp [compiled] at failed

theorem compile_ok_iff {modelName key : String} :
    (∃ field, attr.compile modelName key = .ok field) ↔ ¬ attr.LacksType ∧ ¬ attr.LacksValues := by
  constructor
  · rintro ⟨field, compiled⟩
    exact ⟨fun lacks => by simp [lacks.compile_eq] at compiled,
      fun lacks => by simp [lacks.compile_eq] at compiled⟩
  · rintro ⟨hasType, hasValues⟩
    exact ((attr.compile_cases modelName key).resolve_left hasType).resolve_left hasValues

theorem compile_error {modelName key : String} {cause : Error}
    (failed : attr.compile modelName key = .error cause) :
    cause = .missingType modelName key ∨ cause = .missingValues modelName key := by
  rcases attr.compile_cases modelName key with lacks | lacks | ⟨field, compiled⟩
  · exact Or.inl (Except.error.inj (failed.symm.trans (lacks.compile_eq modelName key)))
  · exact Or.inr (Except.error.inj (failed.symm.trans (lacks.compile_eq modelName key)))
  · simp [compiled] at failed

end FieldRules.Attribute

namespace FieldRules

/-! A type can be written into an attribute in several ways, with its refinements within the
type or beside it. All of them come out the same. -/

/-- Where a type's name and its refinements are written. -/
inductive Spelling
  /-- A name, and the refinements beside it. -/
  | beside
  /-- The same, with the refinements marked as the attribute's own. -/
  | besideAsOwn
  /-- A description with everything in it. -/
  | within
  /-- The description as an answer. -/
  | asked
  /-- The description as an answer to an answer. -/
  | askedTwice
  /-- A description of nothing but the name, and the refinements beside it. -/
  | apart
deriving DecidableEq

namespace Spelling

variable (type : ResolvedType)

def ref : Spelling → TypeRef
  | .beside | .besideAsOwn => .named type.name
  | .within => .described type.description
  | .asked => .deferred (.described type.description)
  | .askedTwice => .deferred (.deferred (.described type.description))
  | .apart => .described { name := some type.name }

/-- The refinements that are written beside the type. -/
def own : Spelling → ResolvedType
  | .beside | .besideAsOwn | .apart => type
  | .within | .asked | .askedTwice => .bare type.name

/-- The type as it is found. Marked refinements count as the type's. -/
def found : Spelling → ResolvedType
  | .beside | .apart => .bare type.name
  | .besideAsOwn | .within | .asked | .askedTwice => type

theorem name_found (spelling : Spelling) : (spelling.found type).name = type.name := by
  cases spelling with
  | beside | besideAsOwn | within | asked | askedTwice | apart => rfl

end Spelling

namespace Attribute

variable (attr : Attribute) (type : ResolvedType) (spelling : Spelling)

/-- The attribute with a type written into it, and with no refinements but those of the type. -/
def spell : Attribute :=
  { attr with
    type := some (spelling.ref type)
    values := (spelling.own type).values
    precision := (spelling.own type).precision
    max := (spelling.own type).max
    format := (spelling.own type).format
    ownRefinements := spelling = .besideAsOwn }

theorem exists_description_spell :
    ∃ ref, (attr.spell type spelling).typeRef = some ref ∧
      ref.ask.ask.description? = some (spelling.found type).description := by
  cases spelling with
  | beside | besideAsOwn | within | asked | askedTwice | apart => exact ⟨_, rfl, rfl⟩

theorem rule_spell :
    (attr.spell type spelling).rule (spelling.found type) =
      ruleNamed type.name type.max type.precision type.format attr.iso := by
  cases spelling with
  | beside | apart | besideAsOwn | within | asked | askedTwice =>
      simp [rule, spell, Spelling.own, Spelling.found, ResolvedType.bare]

theorem values_spell :
    (spelling.found type).values.or (attr.spell type spelling).values = type.values := by
  cases spelling with
  | beside | apart | besideAsOwn | within | asked | askedTwice =>
      simp [spell, Spelling.own, Spelling.found, ResolvedType.bare]

theorem standard?_spell (first second : Spelling) :
    (attr.spell type first).standard? (first.found type) =
      (attr.spell type second).standard? (second.found type) := by
  rw [standard?_eq, standard?_eq, Spelling.name_found, Spelling.name_found, rule_spell, rule_spell,
    values_spell, values_spell]
  rfl

theorem compile_spell (first second : Spelling) (modelName key : String) :
    (attr.spell type first).compile modelName key =
      (attr.spell type second).compile modelName key := by
  by_cases unnamed : type.name = ""
  · have lacks : ∀ spelling, (attr.spell type spelling).LacksType := by
      intro spelling
      obtain ⟨ref, typed, found⟩ := attr.exists_description_spell type spelling
      refine .nameless typed found (Or.inr (congrArg some ?_))
      rw [Spelling.name_found, unnamed]
    rw [(lacks first).compile_eq, (lacks second).compile_eq]
  · have resolves : ∀ spelling,
        (attr.spell type spelling).ResolvesTo (spelling.found type) := by
      intro spelling
      obtain ⟨ref, typed, found⟩ := attr.exists_description_spell type spelling
      refine ⟨ref, typed, TypeRef.resolve_ok_iff.mpr ⟨found, ?_⟩⟩
      rwa [Spelling.name_found]
    have sameName : (first.found type).name = (second.found type).name := by
      rw [Spelling.name_found, Spelling.name_found]
    have sameDocumentation : SameDocumentation (attr.spell type first) (attr.spell type second) :=
      ⟨rfl, rfl, rfl, rfl, rfl, rfl⟩
    have sameStandard := attr.standard?_spell type first second
    rw [(resolves first).compile_eq_iff sameDocumentation rfl (resolves second) sameName]
    exact ⟨congrArg Option.isSome sameStandard, fun _ => sameStandard⟩

end Attribute

end FieldRules

namespace FieldRules.ModelRules

/-! A model cannot be compiled exactly if one of its attributes cannot, and the first of those
decides the error. What comes after it is not looked at. -/

variable {modelName : String} {attributes : List (String × Attribute)} {cause : Error}

/-- The attribute that a model's compilation ends with. -/
def FailsAtFirst (modelName : String) (attributes : List (String × Attribute))
    (cause : Error) : Prop :=
  ∃ before entry after, attributes = before ++ entry :: after ∧
    (∀ earlier ∈ before, ∃ field, earlier.2.compile modelName earlier.1 = .ok field) ∧
    entry.2.compile modelName entry.1 = .error cause

theorem failsAtFirst_cons_iff {key : String} {attr : Attribute} :
    FailsAtFirst modelName ((key, attr) :: attributes) cause ↔
      attr.compile modelName key = .error cause ∨
        (∃ field, attr.compile modelName key = .ok field) ∧
          FailsAtFirst modelName attributes cause :=
  firstFails_cons_iff

theorem add_error_iff {rules : ModelRules} {key : String} {attr : Attribute} :
    rules.add key attr = .error cause ↔ attr.compile rules.modelName key = .error cause := by
  unfold add
  cases attr.compile rules.modelName key with
  | error cause => simp
  | ok field => simp

theorem modelName_add {rules next : ModelRules} {key : String} {attr : Attribute}
    (added : rules.add key attr = .ok next) : next.modelName = rules.modelName := by
  obtain ⟨_, _, _, rfl⟩ := add_ok_iff.mp added
  rfl

theorem foldlM_add_error_iff {rules : ModelRules} :
    attributes.foldlM (fun rules entry => rules.add entry.1 entry.2) rules = .error cause ↔
      FailsAtFirst rules.modelName attributes cause := by
  induction attributes generalizing rules with
  | nil => simp [FailsAtFirst]
  | cons entry rest ih =>
      obtain ⟨key, attr⟩ := entry
      rw [failsAtFirst_cons_iff, List.foldlM_cons, ← add_error_iff]
      cases added : rules.add key attr with
      | error reason =>
          have failed := add_error_iff.mp added
          simp [failed]
      | ok next =>
          obtain ⟨validator, type, compiled, _⟩ := add_ok_iff.mp added
          rw [← modelName_add added, ← ih]
          simp [modelName_add added, compiled]

theorem compile_error_iff :
    compile modelName attributes = .error cause ↔ FailsAtFirst modelName attributes cause :=
  foldlM_add_error_iff

/-- Where an attribute cannot be compiled, one is the first that cannot. -/
theorem exists_failsAtFirst_iff :
    (∃ cause, FailsAtFirst modelName attributes cause) ↔
      ∃ entry ∈ attributes, ∃ cause, entry.2.compile modelName entry.1 = .error cause := by
  induction attributes with
  | nil => simp [FailsAtFirst]
  | cons entry rest ih =>
      obtain ⟨key, attr⟩ := entry
      simp only [failsAtFirst_cons_iff, exists_or, exists_and_left, ih, List.exists_mem_cons_iff]
      cases compiled : attr.compile modelName key with
      | error cause => simp
      | ok field => simp

theorem isCompileError_of_compile (failed : compile modelName attributes = .error cause) :
    cause.isCompileError = true := by
  obtain ⟨_, _, _, _, _, entryFailed⟩ := compile_error_iff.mp failed
  rcases Attribute.compile_error entryFailed with rfl | rfl
  · rfl
  · rfl

/-- An attribute fails for want of a type or else of values, and for no other reason. A model
fails with the first of its attributes that does. -/
theorem compile_fails_iff (modelName : String) :
    (∀ (key : String) (attr : Attribute),
      (attr.compile modelName key = .error (.missingType modelName key) ↔ attr.LacksType) ∧
      (attr.compile modelName key = .error (.missingValues modelName key) ↔
        ¬ attr.LacksType ∧ attr.LacksValues) ∧
      ((∃ validator type, attr.compile modelName key = .ok (validator, type)) ↔
        ¬ attr.LacksType ∧ ¬ attr.LacksValues) ∧
      ∀ cause, attr.compile modelName key = .error cause →
        cause = .missingType modelName key ∨ cause = .missingValues modelName key) ∧
    ∀ attributes,
      ((∃ cause, compile modelName attributes = .error cause) ↔
        ∃ entry ∈ attributes, ∃ cause, entry.2.compile modelName entry.1 = .error cause) ∧
      ∀ cause,
        (compile modelName attributes = .error cause ↔
          FailsAtFirst modelName attributes cause) ∧
        (compile modelName attributes = .error cause → cause.isCompileError = true) := by
  refine ⟨fun key attr => ⟨Attribute.compile_eq_missingType_iff, ?_, ?_, ?_⟩, fun attributes => ?_⟩
  · rw [Attribute.compile_eq_missingValues_iff]
    exact ⟨fun lacks => ⟨lacks.not_lacksType, lacks⟩, And.right⟩
  · exact Prod.exists.symm.trans Attribute.compile_ok_iff
  · exact fun cause failed => Attribute.compile_error failed
  · refine ⟨?_, fun cause => ⟨compile_error_iff, isCompileError_of_compile⟩⟩
    rw [← exists_failsAtFirst_iff]
    exact exists_congr fun cause => compile_error_iff

/-- Two attributes of one key: the first has no type and the second would do. -/
def corrected : List (String × Attribute) := [
  ("id", { type := some (.named "integer") }),
  ("kind", { type := some (.deferred (.deferred (.described { values := some ["a"] }))) }),
  ("size", { type := some (.named "enum") }),
  ("kind", { type := some (.named "string") })]

theorem compile_fails_iff_corrected :
    compile "Model" corrected = .error (.missingType "Model" "kind") ∧
      (Error.missingType "Model" "kind").isCompileError = true := by
  obtain ⟨field, model⟩ := compile_fails_iff "Model"
  obtain ⟨first, compiles⟩ := (model corrected).2 (.missingType "Model" "kind")
  have failed : compile "Model" corrected = .error (.missingType "Model" "kind") := by
    refine first.mpr ⟨[_], _, _, rfl, ?_, ?_⟩
    · exact List.forall_mem_singleton.mpr ⟨_, rfl⟩
    · exact (field "kind" _).1.mpr (.nameless rfl rfl (Or.inl rfl))
  exact ⟨failed, compiles failed⟩

end FieldRules.ModelRules
