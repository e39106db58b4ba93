import FieldRules.Proofs.ModelRules.Compile

namespace FieldRules

namespace Attribute

/-! An override takes the place of the validator that the type would give. The type still has
to be in order, but nothing of it shows in the validator. -/

variable {attr first second : Attribute} {modelName key : String} {validator : Validator}
  {type : TypeEntry}

def withOverride (attr : Attribute) (override : Option Validator) : Attribute :=
  { attr with override }

/-- What two attributes say of a field is the same, but for its type and its values. -/
structure SameDocumentation (first second : Attribute) : Prop where
  label : first.label = second.label
  description : first.description = second.description
  comment : first.comment = second.comment
  primaryKey : first.primaryKey = second.primaryKey
  autoIncrement : first.autoIncrement = second.autoIncrement
  defaultValue : first.defaultValue = second.defaultValue

theorem SameDocumentation.annotate_eq (same : SameDocumentation first second) (key : String)
    (validator : Validator) : first.annotate key validator = second.annotate key validator := by
  have documentedBy : first.documentedBy = second.documentedBy := by
    rw [Attribute.documentedBy, Attribute.documentedBy, same.description, same.comment]
  have notes : first.notes = second.notes := by
    rw [Attribute.notes, Attribute.notes, same.primaryKey, same.autoIncrement]
  rw [annotate, annotate, documentedBy, notes, same.defaultValue, same.label]

theorem compile_withOverride (attr : Attribute) (override : Validator)
    (modelName key : String) :
    (attr.withOverride (some override)).compile modelName key =
      ((attr.withOverride none).compile modelName key).map fun field =>
        (attr.annotate key override, field.2) := by
  have sameRef : ∀ given, (attr.withOverride given).typeRef = attr.typeRef := fun _ => rfl
  have sameStandard : ∀ given resolved,
      (attr.withOverride given).standard? resolved = attr.standard? resolved := fun _ _ => rfl
  rw [compile, compile, sameRef, sameRef]
  cases attr.typeRef.map TypeRef.resolve with
  | none => rfl
  | some resolution =>
      cases resolution with
      | error reason => rfl
      | ok resolved =>
          simp only [sameStandard]
          cases attr.standard? resolved with
          | none => rfl
          | some standard => rfl

theorem compile_overridden {override : Validator} (overridden : attr.override = some override)
    (compiled : attr.compile modelName key = .ok (validator, type)) :
    validator = attr.annotate key override := by
  obtain ⟨_, _, _, _, _, _, equal, _⟩ := compile_ok compiled
  rw [equal, overridden, Option.getD_some]

/-- With an override an attribute fails as it does without it, and its type is the same. The
validator has the override's rule and values, and depends on nothing else but the key and the
attribute's documentation. -/
theorem override_isolated (attr : Attribute) (override : Validator) (modelName key : String) :
    (∀ cause, (attr.withOverride (some override)).compile modelName key = .error cause ↔
      (attr.withOverride none).compile modelName key = .error cause) ∧
    ∀ validator type,
      (attr.withOverride (some override)).compile modelName key = .ok (validator, type) →
      (∃ standard, (attr.withOverride none).compile modelName key = .ok (standard, type)) ∧
      validator.rule = override.rule ∧ validator.allow = override.allow ∧
      validator.valid = override.valid ∧
      ∀ other otherModel otherValidator otherType,
        other.override = some override → SameDocumentation attr other →
        other.compile otherModel key = .ok (otherValidator, otherType) →
        otherValidator = validator := by
  rw [compile_withOverride]
  cases (attr.withOverride none).compile modelName key with
  | error cause => exact ⟨fun _ => Iff.rfl, nofun⟩
  | ok field =>
      refine ⟨fun cause => iff_of_false nofun nofun, ?_⟩
      rintro _ _ ⟨⟩
      refine ⟨⟨field.1, rfl⟩, rfl, rfl, rfl, ?_⟩
      intro other _ _ _ overridden same compiled
      rw [compile_overridden overridden compiled, same.annotate_eq]

def code : Attribute :=
  { type := some (.described { name := some "string", max := some 3 }), primaryKey := true }

def grade : Attribute :=
  { type := some (.named "enum"), allowNull := some false, values := some ["a", "b"]
    ownRefinements := true, primaryKey := true, override := some .boolean }

theorem override_isolated_code :
    ∃ validator codeType gradeType,
      (code.withOverride (some .boolean)).compile "Model" "key" = .ok (validator, codeType) ∧
      grade.compile "Other" "key" = .ok (validator, gradeType) ∧ validator.allow = [] := by
  obtain ⟨validator, codeType, compiled⟩ : ∃ validator codeType,
      (code.withOverride (some .boolean)).compile "Model" "key" = .ok (validator, codeType) :=
    ⟨_, _, rfl⟩
  obtain ⟨other, gradeType, otherCompiled⟩ : ∃ other gradeType,
      grade.compile "Other" "key" = .ok (other, gradeType) := ⟨_, _, rfl⟩
  obtain ⟨_, isolated⟩ := override_isolated code .boolean "Model" "key"
  obtain ⟨_, _, allow, _, alone⟩ := isolated validator codeType compiled
  have equal := alone grade "Other" other gradeType rfl ⟨rfl, rfl, rfl, rfl, rfl, rfl⟩
    otherCompiled
  exact ⟨validator, codeType, gradeType, compiled, equal ▸ otherCompiled, allow⟩

end Attribute

end FieldRules

namespace FieldRules

/-! The validator of a field by the name of its type, where the type's refinements and the
attribute's own are taken together. -/

namespace Json

/-- Among values that are no texts, each text is new where it first comes. -/
theorem addNew_strings {values : List Json}
    (noTexts : ∀ value ∈ values, ∀ text, (Json.string text).same value = false)
    (texts : List String) :
    addNew values (texts.map .string) = values ++ texts.eraseDups.map .string := by
  induction texts using List.reverseRecOn with
  | nil => simp [addNew]
  | append_singleton texts text ih =>
      have isIn : (Json.string text).isIn (values ++ texts.eraseDups.map .string) =
          decide (text ∈ texts) := by
        have among : values.any (Json.string text).same = false := by
          simpa using fun value member => noTexts value member text
        have listed : (texts.eraseDups.map Json.string).any (Json.string text).same =
            decide (text ∈ texts) := by
          rw [Bool.eq_iff_iff, List.any_map]
          simp [Json.same, agree]
        rw [Json.isIn, List.any_append, among, listed, Bool.false_or]
      have step : addNew values ((texts ++ [text]).map .string) =
          if (Json.string text).isIn (addNew values (texts.map .string)) then
            addNew values (texts.map .string)
          else addNew values (texts.map .string) ++ [.string text] := by
        rw [List.map_append, addNew, List.foldl_append]
        rfl
      rw [step, ih, isIn, List.eraseDups_append]
      by_cases again : text ∈ texts
      · simp [again, List.cons_removeAll]
      · simp [again, List.cons_removeAll, List.eraseDups_cons]

end Json

namespace Attribute

open Validator

variable {attr : Attribute} {resolved : ResolvedType}

/-- The rule that a type's name stands for, with the refinements that it may take. -/
def ruleNamed (name : String) (max : Option UInt64) (precision : Option UInt32)
    (format : Option String) (iso : Bool) : Rule Validator :=
  match name with
  | "array" => .array
  | "integer" | "biginteger" => .number true none
  | "boolean" => .boolean
  | "date" => .date iso format
  | "dateonly" => .date false format
  | "decimal" | "double" | "float" | "real" => .number false precision
  | "string" => .string max false
  | "text" | "enum" => .string none false
  | "uuid" => .string none true
  | "geometry" => .object [
      ("type", {
        rule := .string none false
        valid := some [.string "POINT", .string "LINESTRING", .string "POLYGON"] }),
      ("coordinates", { rule := .array }),
      ("crs", { rule := .object [] })]
  | _ => .alternatives [{ rule := .array }, { rule := .object [] }]

/-- The type's refinements go before the attribute's own, but for the format. -/
def rule (attr : Attribute) (resolved : ResolvedType) : Rule Validator :=
  ruleNamed resolved.name (resolved.max.or attr.max) (resolved.precision.or attr.precision)
    (attr.format.or resolved.format) attr.iso

def choices (attr : Attribute) (texts : List String) : List Json :=
  (if attr.allowNull = some false then [] else [.null]) ++ texts.eraseDups.map .string

theorem ruleNamed_other {name other : String} (unknown : TypeName.ofText name = .other other)
    (max : Option UInt64) (precision : Option UInt32) (format : Option String) (iso : Bool) :
    ruleNamed name max precision format iso =
      .alternatives [{ rule := .array }, { rule := .object [] }] := by
  unfold ruleNamed
  split
  rotate_right
  · rfl
  all_goals cases unknown

theorem type_eq_enumeration_iff : resolved.type = .enumeration ↔ resolved.name = "enum" := by
  constructor
  · intro type
    rw [← TypeName.toText_ofText resolved.name, show TypeName.ofText resolved.name = _ from type]
    rfl
  · intro named
    rw [ResolvedType.type, named]
    rfl

theorem base?_eq (unlisted : resolved.type ≠ .enumeration) :
    attr.base? resolved = some { rule := attr.rule resolved } := by
  have named : resolved.name = resolved.type.toText := (TypeName.toText_ofText _).symm
  unfold base? rule
  simp only [max?, precision?, format?, Option.orElse_eq_orElse, Option.orElse_eq_or]
  cases type : resolved.type with
  | enumeration => exact absurd type unlisted
  | other name =>
      rw [ruleNamed_other type]
      rfl
  | _ =>
      rw [named, type]
      rfl

theorem isNullable_eq (attr : Attribute) :
    attr.isNullable = !decide (attr.allowNull = some false) := by
  by_cases ruledOut : attr.allowNull = some false
  · simp [isNullable, ruledOut]
  · simp [isNullable, ruledOut]

theorem enumeration_eq (attr : Attribute) (texts : List String) :
    attr.enumeration texts =
      { rule := .string none false, valid := some (attr.choices texts) } := by
  have noText : ∀ value ∈ [Json.null], ∀ text, (Json.string text).same value = false :=
    List.forall_mem_singleton.mpr fun _ => rfl
  have listed : Json.addNew [] ((if attr.isNullable then [.null] else []) ++ texts.map .string) =
      attr.choices texts := by
    rw [choices, isNullable_eq]
    by_cases ruledOut : attr.allowNull = some false
    · simpa [ruledOut] using Json.addNew_strings (List.forall_mem_nil _) texts
    · simp only [ruledOut, decide_false, Bool.not_false, if_true, if_false]
      exact Json.addNew_strings noText texts
  rw [← listed]
  rfl

theorem orNull_eq (rule : Rule Validator) :
    orNull { rule } =
      { rule, allow := if rule.kind = .string then [.null, .string ""] else [.null] } := by
  cases rule with
  | string => rfl
  | _ => rfl

theorem standard?_eq (attr : Attribute) (resolved : ResolvedType) :
    attr.standard? resolved =
      if resolved.name = "enum" then
        (resolved.values.or attr.values).map fun texts =>
          { rule := .string none false, valid := some (attr.choices texts) }
      else
        some {
          rule := attr.rule resolved
          allow :=
            if attr.allowNull = some false then []
            else if (attr.rule resolved).kind = .string then [.null, .string ""]
            else [.null] } := by
  unfold standard?
  by_cases listed : resolved.name = "enum"
  · have type : resolved.type = .enumeration := type_eq_enumeration_iff.mpr listed
    simp [base?, type, listed, values?, enumeration_eq, Function.comp_def]
  · have type : resolved.type ≠ .enumeration := fun equal =>
      listed (type_eq_enumeration_iff.mp equal)
    rw [base?_eq type, if_neg listed, Option.map_some, isNullable_eq]
    by_cases ruledOut : attr.allowNull = some false
    · simp [ruledOut]
    · simp [ruledOut, type, orNull_eq]

/-- The validator that a type gives: its rule and its set of values are those of the table of
types, and null is an exception unless it is ruled out or among the values. -/
theorem compile_follows_table {ref : TypeRef} {modelName key : String} {validator : Validator}
    {type : TypeEntry} (standard : attr.override = none) (typed : attr.typeRef = some ref)
    (resolution : ref.resolve = .ok resolved)
    (compiled : attr.compile modelName key = .ok (validator, type)) :
    validator.rule =
      ruleNamed resolved.name (resolved.max.or attr.max) (resolved.precision.or attr.precision)
        (attr.format.or resolved.format) attr.iso ∧
    (resolved.name ≠ "enum" → validator.valid = none) ∧
    (resolved.name = "enum" → ∃ texts, resolved.values.or attr.values = some texts ∧
      validator.valid = some ((if attr.allowNull = some false then [] else [.null]) ++
        texts.eraseDups.map .string)) ∧
    validator.allow =
      if attr.allowNull = some false ∨ resolved.name = "enum" then []
      else if validator.kind = .string then [.null, .string ""] else [.null] := by
  obtain ⟨otherRef, other, plain, otherTyped, otherResolution, given, rfl, -⟩ :=
    compile_ok compiled
  obtain rfl : ref = otherRef := Option.some.inj (typed.symm.trans otherTyped)
  obtain rfl : resolved = other := Except.ok.inj (resolution.symm.trans otherResolution)
  rw [standard, Option.getD_none]
  rw [standard?_eq] at given
  by_cases listed : resolved.name = "enum"
  · rw [if_pos listed] at given
    obtain ⟨texts, isTexts, rfl⟩ := Option.map_eq_some_iff.mp given
    refine ⟨?_, fun unlisted => absurd listed unlisted, fun _ => ⟨texts, isTexts, rfl⟩, ?_⟩
    · rw [listed]
      rfl
    · rw [if_pos (Or.inr listed)]
      rfl
  · rw [if_neg listed] at given
    obtain rfl := Option.some.inj given
    refine ⟨rfl, fun _ => rfl, fun equal => absurd equal listed, ?_⟩
    simp only [listed, or_false]
    rfl

/-- A choice whose type has values of its own, one of them twice. -/
def ranking : Attribute :=
  { type := some (.described { name := some "enum", values := some ["b", "a", "b"] })
    values := some ["c"], max := some 1 }

theorem compile_follows_table_ranking :
    ∃ validator type, ranking.compile "Model" "rank" = .ok (validator, type) ∧
      validator.rule = .string none false ∧ validator.allow = [] ∧
      validator.valid = some [.null, .string "b", .string "a"] := by
  obtain ⟨validator, type, compiled⟩ : ∃ validator type,
      ranking.compile "Model" "rank" = .ok (validator, type) := ⟨_, _, rfl⟩
  obtain ⟨rule, _, listed, allow⟩ := compile_follows_table rfl rfl rfl compiled
  obtain ⟨texts, isTexts, valid⟩ := listed rfl
  obtain rfl : texts = ["b", "a", "b"] := (Option.some.inj isTexts).symm
  exact ⟨validator, type, compiled, rule, allow, valid⟩

end Attribute

end FieldRules
