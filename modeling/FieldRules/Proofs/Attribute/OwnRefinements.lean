import FieldRules.Proofs.Attribute.RuleTable
import FieldRules.Proofs.TypeRef

namespace FieldRules

/-! An attribute may take nothing but the name from its type. It does so where the type is at
hand; the refinements of a type that is asked for are not left out. -/

def ResolvedType.bare (name : String) : ResolvedType := ⟨name, none, none, none, none⟩

namespace Attribute

variable {attr first second : Attribute} {ref : TypeRef}
  {resolved firstType secondType : ResolvedType} {modelName key : String}

def ResolvesTo (attr : Attribute) (resolved : ResolvedType) : Prop :=
  ∃ ref, attr.typeRef = some ref ∧ ref.resolve = .ok resolved

theorem ResolvesTo.compile_eq (resolves : attr.ResolvesTo resolved) (modelName key : String) :
    attr.compile modelName key =
      match attr.standard? resolved with
      | none => .error (.missingValues modelName key)
      | some standard =>
          .ok (attr.annotate key (attr.override.getD standard), .ofName resolved.name) := by
  obtain ⟨ref, typed, resolution⟩ := resolves
  cases given : attr.standard? resolved with
  | none => simp only [compile, typed, Option.map_some, resolution, given]
  | some standard => simp only [compile, typed, Option.map_some, resolution, given]

theorem standard?_plain {validator : Validator}
    (given : attr.standard? resolved = some validator) :
    validator = {
      rule := validator.rule, allow := validator.allow, valid := validator.valid } := by
  rw [standard?_eq] at given
  split at given
  · obtain ⟨_, _, rfl⟩ := Option.map_eq_some_iff.mp given
    rfl
  · obtain rfl := Option.some.inj given
    rfl

/-- Documentation does not hide a difference between the validators of types. -/
theorem annotate_eq_iff {validator other : Validator}
    (given : first.standard? firstType = some validator)
    (otherGiven : second.standard? secondType = some other) :
    attr.annotate key validator = attr.annotate key other ↔ validator = other := by
  constructor
  · intro equal
    have rule := congrArg Validator.rule equal
    have allow := congrArg Validator.allow equal
    have valid := congrArg Validator.valid equal
    simp only [annotate] at rule allow valid
    rw [standard?_plain given, standard?_plain otherGiven, rule, allow, valid]
  · rintro rfl
    rfl

/-- Of attributes with the same documentation, only what their types give is compared. -/
theorem ResolvesTo.compile_eq_iff (same : SameDocumentation first second)
    (sameOverride : first.override = second.override) (firstResolves : first.ResolvesTo firstType)
    (secondResolves : second.ResolvesTo secondType) (sameName : firstType.name = secondType.name) :
    first.compile modelName key = second.compile modelName key ↔
      (first.standard? firstType).isSome = (second.standard? secondType).isSome ∧
      (first.override = none → first.standard? firstType = second.standard? secondType) := by
  rw [firstResolves.compile_eq, secondResolves.compile_eq, ← sameOverride, sameName]
  cases firstGiven : first.standard? firstType with
  | none =>
      cases second.standard? secondType with
      | none => simp
      | some secondStandard => simp
  | some firstStandard =>
      cases secondGiven : second.standard? secondType with
      | none => simp
      | some secondStandard =>
          have sameDocumented : ∀ validator,
              first.annotate key validator = second.annotate key validator :=
            fun validator => same.annotate_eq key validator
          cases first.override with
          | some override => simp [sameDocumented]
          | none => simp [sameDocumented, annotate_eq_iff firstGiven secondGiven]

/-! What a type's refinements change. -/

theorem ruleNamed_eq_iff {name : String} {max maxB : Option UInt64}
    {precision precisionB : Option UInt32} {format formatB : Option String} {iso : Bool} :
    ruleNamed name max precision format iso = ruleNamed name maxB precisionB formatB iso ↔
      (name = "string" → max = maxB) ∧
      (name ∈ ["decimal", "double", "float", "real"] → precision = precisionB) ∧
      (name ∈ ["date", "dateonly"] → format = formatB) := by
  unfold ruleNamed
  split <;> simp_all

theorem choices_eq_iff {texts others : List String} :
    attr.choices texts = attr.choices others ↔ texts.eraseDups = others.eraseDups := by
  unfold choices
  rw [List.append_cancel_left_eq]
  exact (List.map_injective_iff.mpr fun _ _ => Json.string.inj).eq_iff

def named (attr : Attribute) (name : String) : Attribute :=
  { attr with type := some (.named name), ownRefinements := false }

theorem resolvesTo_named {name : String} (known : name ≠ "") :
    (attr.named name).ResolvesTo (.bare name) := by
  refine ⟨.named name, rfl, ?_⟩
  change TypeDescription.resolve { name := some name } = _
  exact TypeDescription.resolve_ok_iff.mpr ⟨rfl, known⟩

/-- The type's refinements change nothing: those that a field of the type uses come out as the
attribute's own. Under an override none is used, but a choice still has to have values. -/
structure Unaffected (attr : Attribute) (resolved : ResolvedType) : Prop where
  max : attr.override = none → resolved.name = "string" → resolved.max.or attr.max = attr.max
  precision : attr.override = none → resolved.name ∈ ["decimal", "double", "float", "real"] →
    resolved.precision.or attr.precision = attr.precision
  format : attr.override = none → resolved.name ∈ ["date", "dateonly"] →
    attr.format.or resolved.format = attr.format
  values : attr.override = none → resolved.name = "enum" →
    (resolved.values.or attr.values).map List.eraseDups = attr.values.map List.eraseDups
  listed : resolved.name = "enum" →
    (resolved.values.or attr.values).isSome = attr.values.isSome

theorem rule_eq_named_iff :
    attr.rule resolved = (attr.named resolved.name).rule (.bare resolved.name) ↔
      (resolved.name = "string" → resolved.max.or attr.max = attr.max) ∧
      (resolved.name ∈ ["decimal", "double", "float", "real"] →
        resolved.precision.or attr.precision = attr.precision) ∧
      (resolved.name ∈ ["date", "dateonly"] → attr.format.or resolved.format = attr.format) := by
  refine ruleNamed_eq_iff.trans ?_
  simp only [ResolvedType.bare, Option.none_or, Option.or_none]
  rfl

theorem standard?_eq_named_iff :
    attr.standard? resolved = (attr.named resolved.name).standard? (.bare resolved.name) ↔
      attr.rule resolved = (attr.named resolved.name).rule (.bare resolved.name) ∧
      (resolved.name = "enum" →
        (resolved.values.or attr.values).map List.eraseDups =
          attr.values.map List.eraseDups) := by
  have sameName : (ResolvedType.bare resolved.name).name = resolved.name := rfl
  rw [standard?_eq, standard?_eq, sameName]
  by_cases listed : resolved.name = "enum"
  · have sameRule : attr.rule resolved =
        (attr.named resolved.name).rule (.bare resolved.name) := by
      rw [rule, rule, sameName, listed]
      rfl
    have sameValues : (ResolvedType.bare resolved.name).values.or
        (attr.named resolved.name).values = attr.values := rfl
    have sameChoices : ∀ texts,
        (attr.named resolved.name).choices texts = attr.choices texts := fun _ => rfl
    rw [if_pos listed, if_pos listed, sameValues, forall_prop_of_true listed,
      and_iff_right sameRule]
    simp only [sameChoices]
    generalize resolved.values.or attr.values = merged
    cases merged with
    | none =>
        cases attr.values with
        | none => simp
        | some texts => simp
    | some merged =>
        cases attr.values with
        | none => simp
        | some texts => simp [choices_eq_iff]
  · rw [if_neg listed, if_neg listed, Option.some.injEq, Validator.mk.injEq]
    constructor
    · exact fun equal => ⟨equal.1, fun isListed => absurd isListed listed⟩
    · rintro ⟨sameRule, _⟩
      simp only [sameRule, and_self, and_true, true_and]
      rfl

theorem isSome_standard? :
    (attr.standard? resolved).isSome = true ↔
      (resolved.name = "enum" → (resolved.values.or attr.values).isSome = true) := by
  rw [standard?_eq]
  by_cases listed : resolved.name = "enum"
  · simp [listed]
  · simp [listed]

theorem isSome_standard?_eq_named_iff :
    (attr.standard? resolved).isSome =
        ((attr.named resolved.name).standard? (.bare resolved.name)).isSome ↔
      (resolved.name = "enum" →
        (resolved.values.or attr.values).isSome = attr.values.isSome) := by
  have sameValues : (ResolvedType.bare resolved.name).values.or
      (attr.named resolved.name).values = attr.values := rfl
  have sameName : (ResolvedType.bare resolved.name).name = resolved.name := rfl
  rw [Bool.eq_iff_iff, Bool.eq_iff_iff, isSome_standard?, isSome_standard?, sameValues, sameName]
  by_cases listed : resolved.name = "enum"
  · simp [listed]
  · simp [listed]

theorem unaffected_iff :
    attr.Unaffected resolved ↔
      (attr.standard? resolved).isSome =
        ((attr.named resolved.name).standard? (.bare resolved.name)).isSome ∧
      (attr.override = none → attr.standard? resolved =
        (attr.named resolved.name).standard? (.bare resolved.name)) := by
  rw [isSome_standard?_eq_named_iff, standard?_eq_named_iff, rule_eq_named_iff]
  constructor
  · intro unaffected
    exact ⟨unaffected.listed, fun plain =>
      ⟨⟨unaffected.max plain, unaffected.precision plain, unaffected.format plain⟩,
        unaffected.values plain⟩⟩
  · rintro ⟨listed, standard⟩
    exact {
      max := fun plain => (standard plain).1.1
      precision := fun plain => (standard plain).1.2.1
      format := fun plain => (standard plain).1.2.2
      values := fun plain => (standard plain).2
      listed }

def ownType (attr : Attribute) (name : String) : ResolvedType :=
  ⟨name, attr.values, attr.precision, attr.max, attr.format⟩

theorem unaffected_ownType (attr : Attribute) (name : String) :
    attr.Unaffected (attr.ownType name) where
  max _ _ := by simp [ownType]
  precision _ _ := by simp [ownType]
  format _ _ := by simp [ownType]
  values _ _ := by simp [ownType]
  listed _ := by simp [ownType]

theorem resolvesTo_ownType (own : attr.ownRefinements = true) (typed : attr.type = some ref)
    (resolution : ref.resolve = .ok resolved) (atHand : ¬ ∃ answer, ref = .deferred answer) :
    attr.ResolvesTo (attr.ownType resolved.name) := by
  have described : ∀ description : TypeDescription, description.resolve = .ok resolved →
      (attr.describe description.name).resolve = .ok (attr.ownType resolved.name) := by
    intro description resolution
    obtain ⟨rfl, known⟩ := TypeDescription.resolve_ok_iff.mp resolution
    exact TypeDescription.resolve_ok_iff.mpr ⟨rfl, known⟩
  cases ref with
  | named name =>
      exact ⟨.described (attr.describe (some name)), by simp [typeRef, own, typed],
        described { name := some name } resolution⟩
  | described description =>
      exact ⟨.described (attr.describe description.name), by simp [typeRef, own, typed],
        described description resolution⟩
  | deferred answer => exact absurd ⟨answer, rfl⟩ atHand
  | endless => cases resolution

theorem resolvesTo_deferred {answer : TypeRef} (typed : attr.type = some (.deferred answer))
    (resolution : (TypeRef.deferred answer).resolve = .ok resolved) :
    attr.ResolvesTo resolved :=
  ⟨.deferred answer, by simp [typeRef, typed], resolution⟩

theorem ResolvesTo.compile_eq_named_iff (resolves : attr.ResolvesTo resolved)
    (modelName key : String) :
    attr.compile modelName key = (attr.named resolved.name).compile modelName key ↔
      attr.Unaffected resolved := by
  have known : resolved.name ≠ "" := by
    obtain ⟨_, _, resolution⟩ := resolves
    exact TypeRef.name_ne_empty resolution
  rw [unaffected_iff]
  exact resolves.compile_eq_iff ⟨rfl, rfl, rfl, rfl, rfl, rfl⟩ rfl (resolvesTo_named known) rfl

/-- Of a type at hand, an attribute with refinements of its own takes nothing but the name. Of a
type that is asked for it takes the refinements too, so that they must not matter. -/
theorem compile_ownRefinements_iff (own : attr.ownRefinements = true)
    (typed : attr.type = some ref) (resolution : ref.resolve = .ok resolved)
    (modelName key : String) :
    attr.compile modelName key = (attr.named resolved.name).compile modelName key ↔
      ((∃ answer, ref = .deferred answer) → attr.Unaffected resolved) := by
  by_cases asked : ∃ answer, ref = .deferred answer
  · obtain ⟨answer, rfl⟩ := asked
    rw [(resolvesTo_deferred typed resolution).compile_eq_named_iff]
    exact ⟨fun unaffected _ => unaffected, fun unaffected => unaffected ⟨answer, rfl⟩⟩
  · have resolves := resolvesTo_ownType own typed resolution asked
    refine iff_of_true ?_ fun isAsked => absurd isAsked asked
    exact (resolves.compile_eq_named_iff modelName key).mpr (attr.unaffected_ownType _)

/-- A text of at most nine characters, whose type has no length but a precision. -/
def shortText : Attribute :=
  { type := some (.deferred (.described { name := some "string", precision := some 3 }))
    max := some 9, ownRefinements := true }

theorem compile_ownRefinements_iff_shortText :
    shortText.ownRefinements = true ∧
      (∃ ref, shortText.type = some ref ∧
        ref.resolve = .ok ⟨"string", none, some 3, none, none⟩) ∧
      shortText.compile "Own" "code" = (shortText.named "string").compile "Own" "code" := by
  obtain ⟨ref, typed, resolution⟩ : ∃ ref, shortText.type = some ref ∧
      ref.resolve = .ok ⟨"string", none, some 3, none, none⟩ := ⟨_, rfl, rfl⟩
  have unaffected : shortText.Unaffected ⟨"string", none, some 3, none, none⟩ :=
    ⟨fun _ _ => rfl, fun _ among => absurd among (by decide),
      fun _ among => absurd among (by decide), fun _ listed => absurd listed (by decide),
      fun listed => absurd listed (by decide)⟩
  have same := (compile_ownRefinements_iff rfl typed resolution "Own" "code").mpr
    fun _ => unaffected
  exact ⟨rfl, ⟨ref, typed, resolution⟩, same⟩

/-- A text without a length of its own, whose type has one. -/
def askedLength : Attribute :=
  { type := some (.deferred (.described { name := some "string", max := some 5 }))
    ownRefinements := true }

theorem askedLength_kept :
    askedLength.ownRefinements = true ∧
      (∃ ref resolved, askedLength.type = some ref ∧ ref.resolve = .ok resolved ∧
        resolved.name = "string") ∧
      askedLength.compile "Own" "code" ≠ (askedLength.named "string").compile "Own" "code" := by
  refine ⟨rfl, ⟨_, _, rfl, rfl, rfl⟩, ?_⟩
  intro equal
  cases equal

end Attribute

end FieldRules

namespace FieldRules

/-! Types are read from texts, written as texts, told apart as recognized or not, and given a
rule. The four tables know the same names. -/

namespace TypeName

variable {name other : String}

/-- The names that are not those of an unknown type. -/
def known : List String := [
  "array", "biginteger", "boolean", "date", "dateonly", "decimal", "double", "enum", "float",
  "geometry", "integer", "json", "jsonb", "real", "string", "text", "uuid"]

theorem ofText_injective : Function.Injective ofText :=
  Function.LeftInverse.injective toText_ofText

theorem ofText_eq_other_iff : ofText name = .other other ↔ name = other ∧ name ∉ known := by
  unfold ofText
  split <;> simp_all [known]

theorem isRecognized_ofText_iff :
    (ofText name).isRecognized = true ↔ name ∈ known ∧ name ≠ "json" ∧ name ≠ "jsonb" := by
  have spelled : (ofText name).toText = name := toText_ofText name
  cases type : ofText name with
  | other other =>
      obtain ⟨rfl, unknown⟩ := ofText_eq_other_iff.mp type
      simp [isRecognized, unknown]
  | _ =>
      rw [type] at spelled
      subst spelled
      simp [isRecognized, toText, known]

/-- A type is read back from its text unless it is unknown by a name that is known. -/
theorem ofText_toText_iff {type : TypeName} :
    ofText type.toText = type ↔ ¬ ∃ name ∈ known, type = .other name := by
  cases type with
  | other name => simp [toText, ofText_eq_other_iff]
  | _ => simp [toText, ofText]

end TypeName

namespace Attribute

variable {attr : Attribute} {resolved : ResolvedType} {validator : Validator}

theorem kind_base?_iff (given : attr.base? resolved = some validator) :
    validator.kind = .alternatives ↔ resolved.type.isRecognized = false := by
  unfold base? at given
  cases type : resolved.type with
  | enumeration =>
      rw [type] at given
      obtain ⟨texts, _, rfl⟩ := Option.map_eq_some_iff.mp given
      exact iff_of_false nofun nofun
  | json | jsonb | other =>
      rw [type] at given
      obtain rfl := Option.some.inj given
      exact iff_of_true rfl rfl
  | _ =>
      rw [type] at given
      obtain rfl := Option.some.inj given
      exact iff_of_false nofun nofun

theorem kind_standard?_iff (given : attr.standard? resolved = some validator) :
    validator.kind = .alternatives ↔ resolved.type.isRecognized = false := by
  obtain ⟨base, isBase, rfl⟩ := Option.map_eq_some_iff.mp given
  have sameKind : (orNull base).kind = base.kind := rfl
  rw [← kind_base?_iff isBase]
  split
  · rw [sameKind]
  · rfl

/-- Every text is the name of one type and is written back from it. The rule of a field is a choice
of others exactly where its type is not recognized, and the name is kept as it was given. -/
theorem typeNames_agree :
    (∀ name, (TypeName.ofText name).toText = name) ∧
    Function.Injective TypeName.ofText ∧
    (∀ type : TypeName, .ofText type.toText = type ↔
      ¬ ∃ name ∈ TypeName.known, type = .other name) ∧
    (∀ name, (TypeName.ofText name).isRecognized = true ↔
      name ∈ TypeName.known ∧ name ≠ "json" ∧ name ≠ "jsonb") ∧
    ∀ {attr : Attribute} {resolved : ResolvedType} {modelName key : String}
      {validator : Validator} {type : TypeEntry}, attr.override = none →
      attr.ResolvesTo resolved → attr.compile modelName key = .ok (validator, type) →
      (validator.kind = .alternatives ↔
        (TypeName.ofText resolved.name).isRecognized = false) ∧
      type.declared = resolved.name ∧ type.query = resolved.name := by
  refine ⟨TypeName.toText_ofText, TypeName.ofText_injective,
    fun type => TypeName.ofText_toText_iff, fun name => TypeName.isRecognized_ofText_iff, ?_⟩
  intro attr resolved modelName key validator type standard resolves compiled
  rw [resolves.compile_eq, standard] at compiled
  cases given : attr.standard? resolved with
  | none => simp [given] at compiled
  | some plain =>
      simp only [given, Option.getD_none, Except.ok.injEq, Prod.mk.injEq] at compiled
      obtain ⟨rfl, rfl⟩ := compiled
      have sameKind : (attr.annotate key plain).kind = plain.kind := rfl
      exact ⟨by rw [sameKind, kind_standard?_iff given]; rfl, rfl, rfl⟩

/-- A type that is known and has no rule of its own. -/
def payload : Attribute := { type := some (.deferred (.named "jsonb")), allowNull := some false }

theorem typeNames_agree_payload :
    payload.override = none ∧ payload.ResolvesTo (.bare "jsonb") ∧
      ∃ validator type, payload.compile "Event" "payload" = .ok (validator, type) ∧
        validator.kind = .alternatives ∧ type.query = "jsonb" := by
  have resolves : payload.ResolvesTo (.bare "jsonb") := ⟨_, rfl, rfl⟩
  obtain ⟨validator, type, compiled⟩ : ∃ validator type,
      payload.compile "Event" "payload" = .ok (validator, type) := ⟨_, _, rfl⟩
  obtain ⟨_, _, _, _, field⟩ := typeNames_agree
  obtain ⟨kind, _, query⟩ := field rfl resolves compiled
  exact ⟨rfl, resolves, validator, type, compiled, kind.mpr rfl, query⟩

end Attribute

end FieldRules
