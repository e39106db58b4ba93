import FieldRules.Proofs.Attribute.OwnRefinements
import FieldRules.Proofs.ModelRules.Schema

namespace FieldRules

open Draft7

/-! That a field may be null adds null to the accepted values, and the empty text where the
rule is about texts, and nothing else. -/

namespace Attribute

open Validator

def required (attr : Attribute) : Attribute := { attr with allowNull := some false }

/-- A validator admits null, and perhaps the empty text, besides what another one admits. -/
structure AddsNull (type : TypeName) (strict lenient : Validator) : Prop where
  kind : lenient.kind = strict.kind
  refuses : ∀ engine, strict.admits engine .null = false
  admits : ∀ engine value, lenient.admits engine value = true ↔
    strict.admits engine value = true ∨ value = .null ∨
      (value = .string "" ∧ strict.kind = .string ∧ type ≠ .enumeration)

variable {attr : Attribute} {resolved : ResolvedType} {validator : Validator}

theorem enumeration_admits_iff {engine : Engine} {texts : List String} {value : Json} :
    (attr.enumeration texts).admits engine value = true ↔
      (attr.isNullable = true ∧ value = .null) ∨ ∃ text ∈ texts, value = .string text := by
  have listed : (attr.enumeration texts).admits engine value =
      engine.lists ((if attr.isNullable then [.null] else []) ++ texts.map .string) value := by
    rw [admits_eq, enumeration]
    exact lists_addNew engine [] _ value
  rw [listed, Engine.lists, List.any_append, Bool.or_eq_true, List.any_map]
  apply or_congr
  · cases attr.isNullable with
    | false => simp
    | true => simp [Engine.equal_null_iff]
  · simp [Engine.equal_string_iff]

theorem base?_refuses_null (given : attr.base? resolved = some validator)
    (other : resolved.type ≠ .enumeration) (engine : Engine) :
    validator.admits engine .null = false := by
  unfold base? at given
  cases type : resolved.type with
  | enumeration => exact absurd type other
  | _ =>
      rw [type] at given
      cases given
      rfl

theorem base?_required (other : resolved.type ≠ .enumeration) :
    attr.required.base? resolved = attr.base? resolved := by
  unfold base?
  cases type : resolved.type with
  | enumeration => exact absurd type other
  | _ => rfl

theorem addsNull_orNull {type : TypeName} (other : type ≠ .enumeration)
    (refuses : ∀ engine, validator.admits engine .null = false) :
    AddsNull type validator (orNull validator) where
  kind := rfl
  refuses := refuses
  admits engine value := by
    rw [orNull, admits_allowing, Bool.or_eq_true]
    apply or_congr_right
    split
    next text => simp [Engine.lists, Engine.equal_null_iff, Engine.equal_string_iff, text, other]
    next text => simp [Engine.lists, Engine.equal_null_iff, text]

theorem addsNull_enumeration (nullable : attr.isNullable = true) (texts : List String) :
    AddsNull .enumeration (attr.required.enumeration texts) (attr.enumeration texts) where
  kind := rfl
  refuses engine := by
    rw [Bool.eq_false_iff, ne_eq, enumeration_admits_iff]
    simp [isNullable, required]
  admits engine value := by
    have strict : attr.required.isNullable = false := rfl
    rw [enumeration_admits_iff, enumeration_admits_iff, nullable, strict]
    simp [or_comm]

theorem standard?_required (nullable : attr.isNullable = true) (resolved : ResolvedType) :
    (attr.required.standard? resolved = none ∧ attr.standard? resolved = none) ∨
    ∃ strict lenient, attr.required.standard? resolved = some strict ∧
      attr.standard? resolved = some lenient ∧ AddsNull resolved.type strict lenient := by
  have strictly : attr.required.standard? resolved = attr.required.base? resolved := by
    rw [standard?, show attr.required.isNullable = false from rfl]
    exact Option.map_id' ..
  by_cases type : resolved.type = .enumeration
  · have leniently : attr.standard? resolved = (attr.values? resolved).map attr.enumeration := by
      simp [standard?, base?, type, Function.comp_def]
    have required : attr.required.base? resolved =
        (attr.values? resolved).map attr.required.enumeration := by
      rw [base?, type]
      rfl
    rw [strictly, leniently, required]
    cases attr.values? resolved with
    | none => exact Or.inl ⟨rfl, rfl⟩
    | some texts => exact Or.inr ⟨_, _, rfl, rfl, type ▸ addsNull_enumeration nullable texts⟩
  · have leniently : attr.standard? resolved = (attr.base? resolved).map orNull := by
      simp [standard?, nullable, type]
    rw [strictly, leniently, base?_required type]
    cases given : attr.base? resolved with
    | none => exact Or.inl ⟨rfl, rfl⟩
    | some base =>
        exact Or.inr ⟨_, _, rfl, rfl, addsNull_orNull type (base?_refuses_null given type)⟩

theorem AddsNull.annotate {type : TypeName} {strict lenient : Validator}
    (adds : AddsNull type strict lenient) (attr : Attribute) (key : String) :
    AddsNull type (attr.annotate key strict) (attr.annotate key lenient) := by
  have same : ∀ (plain : Validator) engine value,
      (attr.annotate key plain).admits engine value = plain.admits engine value := by
    intro plain engine value
    rw [admits_eq, admits_eq]
    rfl
  refine ⟨adds.kind, fun engine => ?_, fun engine value => ?_⟩
  · rw [same]
    exact adds.refuses engine
  · rw [same, same]
    exact adds.admits engine value

/-- Both attributes fail in the same way, or have the same type and validators that are apart
by null. -/
theorem compile_required (standard : attr.override = none) (nullable : attr.isNullable = true)
    (modelName key : String) :
    (∃ cause, attr.required.compile modelName key = .error cause ∧
      attr.compile modelName key = .error cause) ∨
    ∃ strict lenient type, attr.required.compile modelName key = .ok (strict, type) ∧
      attr.compile modelName key = .ok (lenient, type) ∧
      AddsNull (.ofText type.declared) strict lenient := by
  have sameRef : attr.required.typeRef = attr.typeRef := rfl
  have plain : attr.required.override = none := standard
  rw [compile, compile, sameRef, plain, standard]
  cases attr.typeRef.map TypeRef.resolve with
  | none => exact Or.inl ⟨_, rfl, rfl⟩
  | some resolution =>
      cases resolution with
      | error reason => exact Or.inl ⟨_, rfl, rfl⟩
      | ok resolved =>
          rcases standard?_required nullable resolved with
            ⟨noStrict, noLenient⟩ | ⟨strict, lenient, isStrict, isLenient, adds⟩
          · refine Or.inl ⟨.missingValues modelName key, ?_, ?_⟩
            · simp only [noStrict]
            · simp only [noLenient]
          · refine Or.inr ⟨_, _, .ofName resolved.name, ?_, ?_, adds.annotate attr key⟩
            · simp only [isStrict]
              rfl
            · simp only [isLenient]
              rfl

/-- Unless it is ruled out, null is accepted besides what is accepted anyway, and so is the
empty text where the validator is about texts that are not listed. Nothing else changes. -/
theorem satisfies_required_iff (standard : attr.override = none)
    (nullable : attr.allowNull ≠ some false) (modelName key : String) :
    (∃ cause, attr.required.compile modelName key = .error cause ∧
      attr.compile modelName key = .error cause) ∨
    ∃ strict lenient type, attr.required.compile modelName key = .ok (strict, type) ∧
      attr.compile modelName key = .ok (lenient, type) ∧ lenient.kind = strict.kind ∧
      ∀ (engine : Engine) extensions,
        engine.satisfies (strict.schema extensions).toJson .null = false ∧
        ∀ value, engine.satisfies (lenient.schema extensions).toJson value = true ↔
          engine.satisfies (strict.schema extensions).toJson value = true ∨ value = .null ∨
            (value = .string "" ∧ lenient.kind = .string ∧
              TypeName.ofText type.declared ≠ .enumeration) := by
  have isNullable : attr.isNullable = true := by simpa [Attribute.isNullable] using nullable
  rcases compile_required standard isNullable modelName key with
    failed | ⟨strict, lenient, type, strictly, leniently, adds⟩
  · exact Or.inl failed
  · have plain : attr.required.override = none := standard
    refine Or.inr ⟨strict, lenient, type, strictly, leniently, adds.kind,
      fun engine extensions => ⟨?_, fun value => ?_⟩⟩
    · rw [satisfies_compiled strictly plain]
      exact adds.refuses engine
    · rw [satisfies_compiled strictly plain, satisfies_compiled leniently standard, adds.kind]
      exact adds.admits engine value

def size : Attribute :=
  { type := some (.named "enum"), values := some ["small", "large"], label := some "Size" }

theorem satisfies_required_iff_size :
    ∃ strict lenient type, size.required.compile "Shirt" "size" = .ok (strict, type) ∧
      size.compile "Shirt" "size" = .ok (lenient, type) ∧
      ∀ engine : Engine, engine.satisfies (lenient.schema true).toJson .null = true ∧
        engine.satisfies (strict.schema true).toJson .null = false := by
  rcases satisfies_required_iff (show size.override = none from rfl) nofun "Shirt" "size" with
    ⟨cause, strictly, _⟩ | ⟨strict, lenient, type, strictly, leniently, _, adds⟩
  · cases strictly
  · exact ⟨strict, lenient, type, strictly, leniently, fun engine =>
      ⟨((adds engine true).2 .null).mpr (Or.inr (Or.inl rfl)), (adds engine true).1⟩⟩

end Attribute

end FieldRules

namespace FieldRules

open Draft7

/-! What an attribute says about a field is added to the field's validator and leaves its demands
on values alone. -/

namespace Json

/-- The values that count as no default. -/
inductive IsBlank : Json → Prop
  | null : IsBlank .null
  | no : IsBlank (.bool false)
  | zero {fits} : IsBlank (.number (.whole 0 fits))
  | zeroDouble (negative : Bool) : IsBlank (.number (.double (.zero negative)))
  | empty : IsBlank (.string "")

theorem isTruthy_eq_false_iff {value : Json} : value.isTruthy = false ↔ value.IsBlank := by
  constructor
  · intro falsy
    cases value with
    | null => exact .null
    | bool value =>
        obtain rfl : value = false := falsy
        exact .no
    | number number =>
        have isZero : number.isZero = true := by simpa [isTruthy] using falsy
        cases number with
        | whole value fits =>
            obtain rfl : value = 0 := by simpa [Number.isZero] using isZero
            exact .zero
        | double value =>
            obtain ⟨negative, rank, finite⟩ := value
            obtain rfl : rank = 0 := by simpa [Number.isZero, Double.isZero] using isZero
            exact .zeroDouble negative
    | string text =>
        obtain rfl : text = "" := by simpa [isTruthy] using falsy
        exact .empty
    | array items => cases falsy
    | object members => cases falsy
  · intro blank
    cases blank with
    | null | no | zero | zeroDouble | empty => rfl

end Json

namespace Attribute

variable {attr other : Attribute} {key modelName : String} {validator plain : Validator}
  {type : TypeEntry}

/-- The validator that an attribute documents: its override, or else what its type gives and
whether the field may be null. -/
def Plain (attr : Attribute) (plain : Validator) : Prop :=
  ∃ resolved standard, attr.ResolvesTo resolved ∧ attr.standard? resolved = some standard ∧
    plain = attr.override.getD standard

def Unsaid (text : Option String) : Prop := text = none ∨ text = some ""

/-- A validator with what an attribute says about its field. -/
structure Documents (attr : Attribute) (key : String) (plain validator : Validator) : Prop where
  rule : validator.rule = plain.rule
  allow : validator.allow = plain.allow
  valid : validator.valid = plain.valid
  label : ∀ text, attr.label = some text → text ≠ "" → validator.label = some text
  noLabel : Unsaid attr.label → validator.label = some key
  description : ∀ text, attr.description = some text → text ≠ "" → ¬ Unsaid attr.comment →
    validator.description = some text
  noDescription : Unsaid attr.description ∨ Unsaid attr.comment →
    validator.description = plain.description
  notes : validator.notes = plain.notes ++ (if attr.primaryKey then ["Primary Key"] else []) ++
    if attr.autoIncrement then
      ["This will automatically increment to the next value when the model is created."]
    else []
  default : ∀ value, attr.defaultValue = some value → ¬ value.IsBlank →
    validator.default = some value
  noDefault : (∀ value, attr.defaultValue = some value → value.IsBlank) →
    validator.default = plain.default

theorem present_some {text : String} (nonempty : text ≠ "") : present (some text) = some text :=
  if_pos (by simpa using nonempty)

theorem present_eq_none_iff {text : Option String} : present text = none ↔ Unsaid text := by
  cases text with
  | none => simp [present, Unsaid]
  | some text => simp [present, Unsaid, Option.filter]

theorem documents_annotate (attr : Attribute) (key : String) (plain : Validator) :
    attr.Documents key plain (attr.annotate key plain) where
  rule := rfl
  allow := rfl
  valid := rfl
  label := by
    intro text given nonempty
    simp only [annotate, given, present_some nonempty, Option.getD_some]
  noLabel := by
    intro unsaid
    simp only [annotate, present_eq_none_iff.mpr unsaid, Option.getD_none]
  description := by
    intro text given nonempty commented
    obtain ⟨comment, isComment⟩ : ∃ comment, present attr.comment = some comment :=
      Option.ne_none_iff_exists'.mp fun none => commented (present_eq_none_iff.mp none)
    simp only [annotate, documentedBy, given, present_some nonempty, isComment]
    rfl
  noDescription := by
    intro unsaid
    have undocumented : attr.documentedBy = none := by
      unfold documentedBy
      rcases unsaid with unsaid | unsaid
      · rw [present_eq_none_iff.mpr unsaid]
      · rw [present_eq_none_iff.mpr unsaid]
        cases present attr.description with
        | none => rfl
        | some description => rfl
    simp only [annotate, undocumented]
    rfl
  notes := by
    simp only [annotate, Attribute.notes, List.append_assoc]
    rfl
  default := by
    intro value given said
    have truthy : value.isTruthy = true := by
      rw [← Bool.not_eq_false, Json.isTruthy_eq_false_iff]
      exact said
    simp only [annotate, given, Option.filter, truthy]
    rfl
  noDefault := by
    intro blank
    have dropped : attr.defaultValue.filter Json.isTruthy = none := by
      cases given : attr.defaultValue with
      | none => rfl
      | some value =>
          have falsy := Json.isTruthy_eq_false_iff.mpr (blank value given)
          simp [Option.filter, falsy]
    simp only [annotate, dropped]
    rfl

/-- What two attributes ask of the values of a field is the same. -/
structure SameDemands (first second : Attribute) : Prop where
  type : first.type = second.type
  allowNull : first.allowNull = second.allowNull
  max : first.max = second.max
  precision : first.precision = second.precision
  format : first.format = second.format
  iso : first.iso = second.iso
  values : first.values = second.values
  ownRefinements : first.ownRefinements = second.ownRefinements

theorem SameDemands.typeRef_eq (same : SameDemands attr other) :
    attr.typeRef = other.typeRef := by
  have describe : attr.describe = other.describe := by
    funext name
    rw [Attribute.describe, Attribute.describe, same.values, same.precision, same.max, same.format]
  rw [typeRef, typeRef, same.ownRefinements, same.type, describe]

theorem SameDemands.standard?_eq (same : SameDemands attr other) (resolved : ResolvedType) :
    attr.standard? resolved = other.standard? resolved := by
  have rule : attr.rule resolved = other.rule resolved := by
    rw [Attribute.rule, Attribute.rule, same.max, same.precision, same.format, same.iso]
  have choices : attr.choices = other.choices := by
    funext texts
    rw [Attribute.choices, Attribute.choices, same.allowNull]
  rw [Attribute.standard?_eq, Attribute.standard?_eq, rule, choices, same.values, same.allowNull]

theorem SameDemands.resolvesTo (same : SameDemands attr other) {resolved : ResolvedType}
    (resolves : attr.ResolvesTo resolved) : other.ResolvesTo resolved := by
  obtain ⟨ref, typed, resolution⟩ := resolves
  exact ⟨ref, same.typeRef_eq ▸ typed, resolution⟩

theorem admits_annotate (attr : Attribute) (key : String) (plain : Validator) (engine : Engine)
    (value : Json) : (attr.annotate key plain).admits engine value = plain.admits engine value := by
  rw [Validator.admits_eq, Validator.admits_eq]
  rfl

theorem plain_of_compile (compiled : attr.compile modelName key = .ok (validator, type)) :
    ∃ plain, attr.Plain plain ∧ validator = attr.annotate key plain := by
  obtain ⟨ref, resolved, standard, typed, resolution, given, equal, _⟩ := compile_ok compiled
  exact ⟨_, ⟨resolved, standard, ⟨ref, typed, resolution⟩, given, rfl⟩, equal⟩

theorem SameDemands.compile (same : SameDemands attr other)
    (compiled : attr.compile modelName key = .ok (validator, type))
    (otherModel otherKey : String) :
    ∃ otherValidator otherType,
      other.compile otherModel otherKey = .ok (otherValidator, otherType) ∧
      (attr.override = none → other.override = none → ∀ engine value,
        validator.admits engine value = otherValidator.admits engine value) := by
  obtain ⟨ref, resolved, standard, typed, resolution, given, rfl, _⟩ := compile_ok compiled
  have resolves : other.ResolvesTo resolved := same.resolvesTo ⟨ref, typed, resolution⟩
  have otherGiven : other.standard? resolved = some standard := by
    rw [← same.standard?_eq]
    exact given
  refine ⟨other.annotate otherKey (other.override.getD standard), .ofName resolved.name, ?_, ?_⟩
  · rw [resolves.compile_eq, otherGiven]
  · intro standardly otherStandardly engine value
    rw [admits_annotate, admits_annotate, standardly, otherStandardly]

/-- A field's validator demands what the override or the type demands, and says what the
attribute says. So what is said does not matter to whether a value is accepted. -/
theorem compile_documents (compiled : attr.compile modelName key = .ok (validator, type)) :
    (∃ plain, attr.Plain plain ∧ attr.Documents key plain validator) ∧
    (attr.override = none → ∀ other : Attribute, other.override = none →
      SameDemands attr other → ∀ otherModel otherKey, ∃ otherValidator otherType,
        other.compile otherModel otherKey = .ok (otherValidator, otherType) ∧
        ∀ (engine : Engine) (extensions otherExtensions : Bool) (value : Json),
          engine.satisfies (validator.schema extensions).toJson value =
            engine.satisfies (otherValidator.schema otherExtensions).toJson value) := by
  constructor
  · obtain ⟨plain, isPlain, rfl⟩ := plain_of_compile compiled
    exact ⟨plain, isPlain, documents_annotate attr key plain⟩
  · intro standardly other otherStandardly same otherModel otherKey
    obtain ⟨otherValidator, otherType, otherCompiled, admits⟩ :=
      same.compile compiled otherModel otherKey
    refine ⟨otherValidator, otherType, otherCompiled, ?_⟩
    intro engine extensions otherExtensions value
    rw [satisfies_compiled compiled standardly, satisfies_compiled otherCompiled otherStandardly]
    exact admits standardly otherStandardly engine value

/-- A price whose validator comes with notes, a default and a label. The attribute says nothing
that could take the place of the last two. -/
def price : Attribute where
  type := some (.named "decimal")
  label := some ""
  description := some "Before tax"
  primaryKey := true
  defaultValue := some (.number (.double (.zero true)))
  override := some {
    rule := .number false (some 2), notes := ["Net"], default := some (.string "1")
    label := some "Amount" }

/-- The same demands without an override, and with other documentation. -/
def barePrice : Attribute := { price with override := none, autoIncrement := true }

theorem compile_documents_price :
    (∃ validator type, price.compile "Item" "price" = .ok (validator, type) ∧
      validator.label = some "price" ∧ validator.description = none ∧
      validator.notes = ["Net", "Primary Key"] ∧ validator.default.isSome) ∧
    ∃ validator type otherValidator otherType,
      barePrice.compile "Item" "price" = .ok (validator, type) ∧
      ({ barePrice with label := some "Price" }).compile "Item" "cost" =
        .ok (otherValidator, otherType) ∧
      ∀ (engine : Engine) (value : Json),
        engine.satisfies (validator.schema true).toJson value =
          engine.satisfies (otherValidator.schema false).toJson value := by
  constructor
  · obtain ⟨validator, type, compiled⟩ : ∃ validator type,
        price.compile "Item" "price" = .ok (validator, type) := ⟨_, _, rfl⟩
    obtain ⟨plain, ⟨_, standard, _, _, rfl⟩, documents⟩ := (compile_documents compiled).1
    refine ⟨validator, type, compiled, documents.noLabel (Or.inr rfl),
      documents.noDescription (Or.inr (Or.inl rfl)), documents.notes, ?_⟩
    rw [documents.noDefault fun _ given => Option.some.inj given ▸ .zeroDouble true]
    rfl
  · obtain ⟨validator, type, compiled⟩ : ∃ validator type,
        barePrice.compile "Item" "price" = .ok (validator, type) := ⟨_, _, rfl⟩
    obtain ⟨otherValidator, otherType, otherCompiled, same⟩ := (compile_documents compiled).2 rfl
      { barePrice with label := some "Price" } rfl ⟨rfl, rfl, rfl, rfl, rfl, rfl, rfl, rfl⟩
      "Item" "cost"
    exact ⟨validator, type, otherValidator, otherType, compiled, otherCompiled,
      fun engine value => same engine true false value⟩

end Attribute

end FieldRules
