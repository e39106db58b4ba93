import FieldRules.Draft7.Schema
import FieldRules.Proofs.Entries
import FieldRules.Proofs.Json.Agreement
import Mathlib.Tactic.FinCases

namespace FieldRules

/-! A schema's document, keyword by keyword. -/

namespace Json

theorem get?_optional (name other : String) (encode : α → Json) (value : Option α) :
    Entries.get? (optional name encode value) other =
      if other = name then value.map encode else none := by
  cases value with
  | none => simp
  | some value => simp [Entries.get?]

theorem get?_nonempty {name other : String} (encode : List α → Json) (values : List α)
    (differ : other ≠ name) :
    Entries.get? (nonempty name encode values) other = none := by
  cases values with
  | nil => rfl
  | cons first others => simp [differ]

end Json

namespace Draft7.Schema

/-- A schema as validators have them: its properties have different names, and its pattern
is one of the two that validators know. No type is listed twice. -/
structure Regular (schema : Schema) : Prop where
  properties : ∀ schemas ∈ schema.properties, Entries.Distinct schemas
  pattern : ∀ pattern ∈ schema.pattern, pattern = .guid ∨ pattern = .iso8601
  types : schema.types.Nodup

theorem branchesToJson_eq (branches : List Schema) :
    branchesToJson branches = branches.map toJson := by
  induction branches with
  | nil => rfl
  | cons branch rest ih => simp [branchesToJson, ih, toJson]

theorem propertiesToJson_eq (schemas : Entries Schema) :
    propertiesToJson schemas = schemas.mapValues toJson := by
  induction schemas with
  | nil => rfl
  | cons property rest ih =>
      obtain ⟨name, schema⟩ := property
      simp only [Entries.mapValues] at ih
      simp [propertiesToJson, Entries.mapValues, ih, toJson]

/-- Ordering the properties by name only moves them. -/
theorem sort_propertiesToJson_perm {schemas : Entries Schema} (distinct : schemas.Distinct) :
    (Entries.sort (propertiesToJson schemas)).Perm (schemas.mapValues toJson) := by
  rw [propertiesToJson_eq]
  apply Entries.Distinct.sort_perm
  simpa [Entries.Distinct] using distinct

theorem get?_typeToJson (types : List JsonType) {name : String} (differ : name ≠ "type") :
    Entries.get? (typeToJson types) name = none := by
  match types with
  | [] => rfl
  | [type] => simp [typeToJson, Entries.get?, differ]
  | first :: second :: rest => simp [typeToJson, Entries.get?, differ]

/-- The members of a schema's document, each as a keyword that may be absent. -/
theorem members_eq (schema : Schema) :
    schema.members =
      Json.optional "additionalProperties" (fun _ => .bool false) schema.properties
      ++ Json.optional "anyOf" (fun branches => .array (branchesToJson branches))
          schema.anyOf
      ++ Json.optional "default" id schema.default
      ++ Json.optional "description" .string schema.description
      ++ Json.optional "enum" .array schema.enum
      ++ Json.optional "maxLength" Json.ofUInt64 schema.maxLength
      ++ Json.optional "pattern" (fun pattern => .string pattern.source) schema.pattern
      ++ Json.optional "properties"
          (fun schemas => Json.record (propertiesToJson schemas)) schema.properties
      ++ Json.optional "title" .string schema.title
      ++ typeToJson schema.types
      ++ Json.optional "x-format" .string schema.format
      ++ Json.nonempty "x-notes" Json.strings schema.notes
      ++ Json.optional "x-precision" Json.ofUInt32 schema.precision := by
  obtain ⟨anyOf, enum, maxLength, pattern, properties, types, title, description, default,
    format, notes, precision⟩ := schema
  cases properties with
  | none =>
      cases anyOf with
      | none => rfl
      | some branches => rfl
  | some schemas =>
      cases anyOf with
      | none => rfl
      | some branches => rfl

theorem get?_members_properties (schema : Schema) :
    Entries.get? schema.members "properties" =
      schema.properties.map fun schemas => Json.record (propertiesToJson schemas) := by
  simp [members_eq, Entries.get?_append, Json.get?_optional, Json.get?_nonempty,
    get?_typeToJson]

end Draft7.Schema

/-! The meaning of a schema's document in draft 7: a value satisfies an object of
keywords if it satisfies each of them. Other members say nothing about values. -/

namespace Json

def members : Json → List (String × Json)
  | .object members => members
  | _ => []

end Json

namespace Draft7

/-- What the meaning of a schema leaves to an engine: which texts a regular expression
is found in, and which numbers are the same value. No engine tells numbers apart that
are written the same. -/
structure Engine where
  finds : (expression text : String) → Bool
  equalNumbers : Json.Number → Json.Number → Bool
  respects : Json.Number.Respects equalNumbers

namespace JsonType

/-- Whether a value has the type with a name. There are no types with other names. -/
def namedAccepts (name : String) (value : Json) : Bool :=
  all.any fun type => type.name == name && type.accepts value

end JsonType

namespace Engine

def equal (engine : Engine) : Json → Json → Bool := Json.agree engine.equalNumbers

def lists (engine : Engine) (values : List Json) (value : Json) : Bool :=
  values.any (engine.equal value)

/-- Keywords that look at nothing but their argument and the value. -/
def simpleHolds (engine : Engine) (name : String) (argument value : Json) : Bool :=
  match name, argument, value with
  | "enum", .array accepted, value => engine.lists accepted value
  | "maxLength", .number limit, .string text =>
      decide ((text.length : Int) * Double.one ≤ limit.units)
  | "pattern", .string expression, .string text => engine.finds expression text
  | "type", .string type, value => JsonType.namedAccepts type value
  | "type", .array types, value => types.any fun
      | .string type => JsonType.namedAccepts type value
      | _ => false
  | _, _, _ => true

def propertyNames (keywords : List (String × Json)) : List String :=
  match Entries.get? keywords "properties" with
  | some (.object schemas) => Entries.names schemas
  | _ => []

mutual

/-- Whether a value satisfies the schema that a document says. -/
def satisfies (engine : Engine) : (schema value : Json) → Bool
  | .bool verdict, _ => verdict
  | .object keywords, value =>
      engine.satisfiesAll (propertyNames keywords) keywords value
  | _, _ => false
termination_by structural schema => schema

def satisfiesAll (engine : Engine) (known : List String) :
    (keywords : List (String × Json)) → Json → Bool
  | [], _ => true
  | (name, argument) :: rest, value =>
      (if name = "anyOf" then engine.satisfiesBranches argument value
        else if name = "properties" then engine.satisfiesProperties argument value
        else if name = "additionalProperties" then
          value.members.all fun member =>
            known.contains member.1 || engine.satisfies argument member.2
        else engine.simpleHolds name argument value)
      && engine.satisfiesAll known rest value
termination_by structural keywords => keywords

def satisfiesBranches (engine : Engine) : (branches value : Json) → Bool
  | .array branches, value => engine.satisfiesSome branches value
  | _, _ => true
termination_by structural branches => branches

def satisfiesSome (engine : Engine) : List Json → Json → Bool
  | [], _ => false
  | schema :: rest, value => engine.satisfies schema value || engine.satisfiesSome rest value
termination_by structural schemas => schemas

def satisfiesProperties (engine : Engine) : (schemas value : Json) → Bool
  | .object schemas, value => engine.satisfiesEach schemas value
  | _, _ => true
termination_by structural schemas => schemas

/-- Every member of the value that has one of the names satisfies its schema. -/
def satisfiesEach (engine : Engine) : List (String × Json) → Json → Bool
  | [], _ => true
  | (name, schema) :: rest, value =>
      (value.members.all fun member =>
        member.1 != name || engine.satisfies schema member.2)
      && engine.satisfiesEach rest value
termination_by structural schemas => schemas

end

variable (engine : Engine)

theorem equal_null_iff {value : Json} : engine.equal value .null = true ↔ value = .null := by
  cases value with
  | null => simp [equal, Json.agree]
  | _ => simp [equal, Json.agree]

theorem equal_string_iff {value : Json} {text : String} :
    engine.equal value (.string text) = true ↔ value = .string text := by
  cases value with
  | string other => simp [equal, Json.agree]
  | _ => simp [equal, Json.agree]

/-! The keywords of a written schema, one by one. -/

theorem satisfiesAll_append (known : List String) (first second : List (String × Json))
    (value : Json) :
    engine.satisfiesAll known (first ++ second) value =
      (engine.satisfiesAll known first value && engine.satisfiesAll known second value) := by
  induction first with
  | nil => simp [satisfiesAll]
  | cons keyword rest ih =>
      obtain ⟨name, argument⟩ := keyword
      simp only [List.cons_append, satisfiesAll, ih, Bool.and_assoc]

theorem satisfiesSome_eq (branches : List Schema) (value : Json) :
    engine.satisfiesSome (Schema.branchesToJson branches) value =
      branches.any fun branch => engine.satisfies branch.toJson value := by
  induction branches with
  | nil => rfl
  | cons branch rest ih => simp [Schema.branchesToJson, satisfiesSome, ih, Schema.toJson]

theorem satisfiesEach_eq (schemas : List (String × Json)) (value : Json) :
    engine.satisfiesEach schemas value =
      schemas.all fun property => value.members.all fun member =>
        member.1 != property.1 || engine.satisfies property.2 member.2 := by
  induction schemas with
  | nil => rfl
  | cons property rest ih =>
      obtain ⟨name, schema⟩ := property
      simp [satisfiesEach, ih]

theorem satisfiesAll_typeToJson (known : List String) (types : List JsonType) (value : Json) :
    engine.satisfiesAll known (Schema.typeToJson types) value =
      (types.isEmpty || types.any (·.accepts value)) := by
  have named : ∀ type : JsonType, JsonType.namedAccepts type.name value = type.accepts value := by
    intro type
    cases type with
    | _ => simp [JsonType.namedAccepts, JsonType.all, JsonType.name]
  match types with
  | [] => simp [Schema.typeToJson, satisfiesAll]
  | [type] => simp [Schema.typeToJson, satisfiesAll, simpleHolds, named]
  | first :: second :: rest =>
      simp [Schema.typeToJson, satisfiesAll, simpleHolds, Json.strings, named, Function.comp_def]

/-- A text is at most as long as a limit; other values have no length. -/
def withinLength (limit : UInt64) : Json → Bool
  | .string text => text.length ≤ limit.toNat
  | _ => true

/-- An expression is found in a text; nothing is looked for in other values. -/
def foundIn (expression : String) : Json → Bool
  | .string text => engine.finds expression text
  | _ => true

theorem simpleHolds_maxLength (limit : UInt64) (value : Json) :
    engine.simpleHolds "maxLength" (Json.ofUInt64 limit) value = withinLength limit value := by
  have positive : (0 : Int) < Double.one := by decide
  cases value with
  | string text =>
      simp [simpleHolds, Json.ofUInt64, Json.Number.ofUInt64, Json.Number.units, withinLength,
        Int.mul_le_mul_right positive]
  | _ => simp [simpleHolds, Json.ofUInt64, withinLength]

theorem simpleHolds_pattern (expression : String) (value : Json) :
    engine.simpleHolds "pattern" (.string expression) value = engine.foundIn expression value := by
  cases value with
  | string text => simp [simpleHolds, foundIn]
  | _ => simp [simpleHolds, foundIn]

/-- Every member has a property's name and a value that follows the property's schema. -/
def membersFollow (follows : Schema → Json → Bool) (schemas : Entries Schema) (value : Json) :
    Bool :=
  value.members.all fun member => (schemas.get? member.1).any (follows · member.2)

/-- Whether a value obeys the keywords of a schema, if it is known which values follow
the schemas within. -/
def obeys (follows : Schema → Json → Bool) (schema : Schema) (value : Json) : Bool :=
  schema.properties.all (membersFollow follows · value) &&
  schema.anyOf.all (fun branches => branches.any (follows · value)) &&
  schema.enum.all (engine.lists · value) &&
  schema.maxLength.all (withinLength · value) &&
  schema.pattern.all (fun pattern => engine.foundIn pattern.source value) &&
  (schema.types.isEmpty || schema.types.any (·.accepts value))

theorem satisfiesEach_record {schemas : Entries Schema} (distinct : schemas.Distinct)
    (value : Json) :
    (engine.satisfiesEach (Entries.sort (Schema.propertiesToJson schemas)) value &&
      value.members.all fun member =>
        (Entries.names (Entries.sort (Schema.propertiesToJson schemas))).contains member.1) =
      membersFollow (engine.satisfies ·.toJson) schemas value := by
  have perm := Schema.sort_propertiesToJson_perm distinct
  have listed : ∀ name, name ∈ Entries.names (Entries.sort (Schema.propertiesToJson schemas)) ↔
      name ∈ schemas.names := fun name => by
    rw [Entries.names, (perm.map Prod.fst).mem_iff, ← Entries.names, Entries.names_mapValues]
  have mapped : ∀ name document,
      (name, document) ∈ Entries.sort (Schema.propertiesToJson schemas) ↔
        ∃ schema, schemas.get? name = some schema ∧ schema.toJson = document := by
    intro name document
    have distinctJson : Entries.Distinct (schemas.mapValues Schema.toJson) := by
      simpa [Entries.Distinct] using distinct
    rw [perm.mem_iff, ← distinctJson.get?_eq_some_iff, Entries.get?_mapValues,
      Option.map_eq_some_iff]
  rw [Bool.eq_iff_iff, Bool.and_eq_true, satisfiesEach_eq, membersFollow]
  simp only [List.all_eq_true, List.contains_iff_mem, listed, Bool.or_eq_true, bne_iff_ne]
  constructor
  · rintro ⟨each, known⟩ member inValue
    obtain ⟨schema, found⟩ : ∃ schema, schemas.get? member.1 = some schema := by
      apply Option.ne_none_iff_exists'.mp
      rw [ne_eq, Entries.get?_eq_none_iff, not_not]
      exact known member inValue
    have holds := each (member.1, schema.toJson) ((mapped _ _).mpr ⟨schema, found, rfl⟩) member
      inValue
    simpa [found] using holds
  · intro holds
    constructor
    · rintro ⟨name, document⟩ property member inValue
      obtain ⟨schema, found, rfl⟩ := (mapped _ _).mp property
      by_cases equal : member.1 = name
      · right
        simpa [equal, found] using holds member inValue
      · left
        exact equal
    · intro member inValue
      by_contra absent
      simpa [Entries.get?_eq_none_iff.mpr absent] using holds member inValue

theorem satisfiesAll_optional (known : List String) (name : String) (encode : α → Json)
    (argument : Option α) (value : Json) :
    engine.satisfiesAll known (Json.optional name encode argument) value =
      argument.all fun argument => engine.satisfiesAll known [(name, encode argument)] value := by
  cases argument with
  | none => simp [satisfiesAll]
  | some argument => simp

theorem satisfiesAll_nonempty (known : List String) (name : String) (encode : List α → Json)
    (arguments : List α) (value : Json)
    (silent : ∀ argument, engine.satisfiesAll known [(name, argument)] value = true) :
    engine.satisfiesAll known (Json.nonempty name encode arguments) value = true := by
  cases arguments with
  | nil => simp [Json.nonempty, satisfiesAll]
  | cons argument rest => exact silent _

/-- The names of the properties may be any, since they come from the whole document. -/
theorem satisfiesAll_members (known : List String) (schema : Schema) (value : Json) :
    engine.satisfiesAll known schema.members value =
      (schema.properties.all (fun schemas =>
        engine.satisfiesEach (Entries.sort (Schema.propertiesToJson schemas)) value &&
          value.members.all fun member => known.contains member.1) &&
      schema.anyOf.all (fun branches =>
        branches.any fun branch => engine.satisfies branch.toJson value) &&
      schema.enum.all (engine.lists · value) &&
      schema.maxLength.all (withinLength · value) &&
      schema.pattern.all (fun pattern => engine.foundIn pattern.source value) &&
      (schema.types.isEmpty || schema.types.any (·.accepts value))) := by
  have silent : ∀ name ∈ ["default", "description", "title", "x-format", "x-notes",
      "x-precision"], ∀ argument,
      engine.satisfiesAll known [(name, argument)] value = true := by
    simp [satisfiesAll, simpleHolds]
  have closed : engine.satisfiesAll known [("additionalProperties", .bool false)] value =
      value.members.all fun member => known.contains member.1 := by
    simp [satisfiesAll, satisfies]
  have branchesHold : ∀ branches,
      engine.satisfiesAll known [("anyOf", .array (Schema.branchesToJson branches))] value =
        branches.any fun branch => engine.satisfies branch.toJson value := by
    intro branches
    simp [satisfiesAll, satisfiesBranches, satisfiesSome_eq]
  have enumHolds : ∀ accepted, engine.satisfiesAll known [("enum", .array accepted)] value =
      engine.lists accepted value := by
    intro accepted
    simp [satisfiesAll, simpleHolds]
  have lengthHolds : ∀ limit,
      engine.satisfiesAll known [("maxLength", Json.ofUInt64 limit)] value =
        withinLength limit value := by
    intro limit
    simp [satisfiesAll, simpleHolds_maxLength]
  have patternHolds : ∀ expression,
      engine.satisfiesAll known [("pattern", .string expression)] value =
        engine.foundIn expression value := by
    intro expression
    simp [satisfiesAll, simpleHolds_pattern]
  have propertiesHold : ∀ schemas,
      engine.satisfiesAll known [("properties", Json.record schemas)] value =
        engine.satisfiesEach (Entries.sort schemas) value := by
    intro schemas
    simp [satisfiesAll, satisfiesProperties, Json.record]
  rw [Schema.members_eq]
  simp only [satisfiesAll_append, satisfiesAll_optional, satisfiesAll_typeToJson, closed,
    branchesHold, enumHolds, lengthHolds, patternHolds, propertiesHold,
    engine.satisfiesAll_nonempty known "x-notes" Json.strings schema.notes value
      (silent _ (by simp)),
    silent "default" (by simp), silent "description" (by simp), silent "title" (by simp),
    silent "x-format" (by simp), silent "x-precision" (by simp)]
  cases schema.properties with
  | none => simp [Bool.and_left_comm, Bool.and_comm]
  | some schemas => simp [Bool.and_left_comm, Bool.and_comm]

theorem satisfies_toJson {schema : Schema}
    (distinct : ∀ schemas ∈ schema.properties, Entries.Distinct schemas) (value : Json) :
    engine.satisfies schema.toJson value =
      engine.obeys (engine.satisfies ·.toJson) schema value := by
  rw [Schema.toJson, satisfies, satisfiesAll_members, obeys]
  cases declared : schema.properties with
  | none => rfl
  | some schemas =>
      have known : propertyNames schema.members =
          Entries.names (Entries.sort (Schema.propertiesToJson schemas)) := by
        simp [propertyNames, Schema.get?_members_properties, declared, Json.record]
      rw [known, Option.all_some, Option.all_some,
        satisfiesEach_record engine (distinct schemas declared)]

end Engine

end Draft7

end FieldRules
