import FieldRules.Proofs.Validator.Schema

namespace FieldRules

theorem Json.optional_map (name : String) (encode : β → Json) (f : α → β) (value : Option α) :
    Json.optional name encode (value.map f) =
      Json.optional name (fun value => encode (f value)) value := by
  cases value with
  | none => rfl
  | some value => rfl

namespace Draft7

/-! A schema's document may hold keywords that are no part of draft 7. They can be taken out of
the document again, at every place of a schema. -/

/-- The keywords that draft 7 does not have. -/
def isExtension (name : String) : Bool :=
  ["x-format", "x-non-nullable", "x-notes", "x-precision", "x-types"].contains name

mutual

/-- A schema's document without extensions, in it and in the schemas within. Nothing else is
taken out: what the other keywords hold is data, and so are the names of properties. -/
def withoutExtensions : Json → Json
  | .object keywords => .object (keptKeywords keywords)
  | verdict => verdict

def keptKeywords : List (String × Json) → List (String × Json)
  | [] => []
  | (name, argument) :: rest =>
      if isExtension name then keptKeywords rest
      else
        (name,
          if name = "anyOf" then branchesWithoutExtensions argument
          else if name = "properties" then propertiesWithoutExtensions argument
          else argument) :: keptKeywords rest

def branchesWithoutExtensions : Json → Json
  | .array branches => .array (eachBranch branches)
  | argument => argument

def eachBranch : List Json → List Json
  | [] => []
  | branch :: rest => withoutExtensions branch :: eachBranch rest

def propertiesWithoutExtensions : Json → Json
  | .object schemas => .object (eachProperty schemas)
  | argument => argument

def eachProperty : List (String × Json) → List (String × Json)
  | [] => []
  | (name, schema) :: rest => (name, withoutExtensions schema) :: eachProperty rest

end

theorem eachBranch_eq (branches : List Json) :
    eachBranch branches = branches.map withoutExtensions := by
  induction branches with
  | nil => rfl
  | cons branch rest ih => simp [eachBranch, ih]

theorem eachProperty_eq (schemas : Entries Json) :
    eachProperty schemas = schemas.mapValues withoutExtensions := by
  induction schemas with
  | nil => rfl
  | cons property rest ih => simp [eachProperty, ih]

theorem keptKeywords_append (first second : List (String × Json)) :
    keptKeywords (first ++ second) = keptKeywords first ++ keptKeywords second := by
  induction first with
  | nil => rfl
  | cons keyword rest ih =>
      obtain ⟨name, argument⟩ := keyword
      by_cases extension : isExtension name
      · simp [keptKeywords, extension, ih]
      · simp [keptKeywords, extension, ih]

section

variable {name : String} (encode : α → Json)

theorem keptKeywords_optional (value : Option α)
    (branchless : name ≠ "anyOf") (schemaless : name ≠ "properties") :
    keptKeywords (Json.optional name encode value) =
      if isExtension name then [] else Json.optional name encode value := by
  cases value with
  | none => simp [Json.optional, keptKeywords]
  | some value =>
      by_cases extension : isExtension name
      · simp [Json.optional, keptKeywords, extension]
      · simp [Json.optional, keptKeywords, extension, branchless, schemaless]

theorem keptKeywords_nonempty (extension : isExtension name = true) (encode : List α → Json)
    (values : List α) : keptKeywords (Json.nonempty name encode values) = [] := by
  cases values with
  | nil => rfl
  | cons first others => simp [Json.nonempty, keptKeywords, extension]

end

namespace Schema

theorem keptKeywords_typeToJson (types : List JsonType) :
    keptKeywords (typeToJson types) = typeToJson types := by
  match types with
  | [] | [_] | _ :: _ :: _ => simp [typeToJson, keptKeywords, isExtension]

theorem keptKeywords_anyOf (branches : Option (List Schema)) :
    keptKeywords (Json.optional "anyOf" (fun branches => .array (branchesToJson branches))
        branches) =
      Json.optional "anyOf" .array
        (branches.map (List.map fun branch => withoutExtensions branch.toJson)) := by
  cases branches with
  | none => rfl
  | some branches =>
      simp [Json.optional, keptKeywords, isExtension, branchesWithoutExtensions, eachBranch_eq,
        branchesToJson_eq]

theorem keptKeywords_properties (schemas : Option (Entries Schema)) :
    keptKeywords (Json.optional "properties"
        (fun schemas => Json.record (propertiesToJson schemas)) schemas) =
      Json.optional "properties" Json.record
        (schemas.map (Entries.mapValues fun schema => withoutExtensions schema.toJson)) := by
  have composed : ∀ schemas : Entries Schema,
      (schemas.mapValues toJson).mapValues withoutExtensions =
        schemas.mapValues fun schema => withoutExtensions schema.toJson := by
    simp [Entries.mapValues]
  cases schemas with
  | none => rfl
  | some schemas =>
      simp [Json.optional, keptKeywords, isExtension, propertiesWithoutExtensions, eachProperty_eq,
        propertiesToJson_eq, Json.record, Entries.mapValues_sort, composed]

/-- The first schema says what the second one does, but for the extensions. -/
structure LeavesOut (plain full : Schema) : Prop where
  anyOf : plain.anyOf.map (List.map toJson) =
    full.anyOf.map (List.map fun branch => withoutExtensions branch.toJson)
  properties : plain.properties.map (Entries.mapValues toJson) =
    full.properties.map (Entries.mapValues fun schema => withoutExtensions schema.toJson)
  enum : plain.enum = full.enum
  maxLength : plain.maxLength = full.maxLength
  pattern : plain.pattern = full.pattern
  types : plain.types = full.types
  title : plain.title = full.title
  description : plain.description = full.description
  default : plain.default = full.default
  format : plain.format = none
  notes : plain.notes = []
  precision : plain.precision = none

theorem LeavesOut.members_eq {plain full : Schema} (leavesOut : LeavesOut plain full) :
    plain.members = keptKeywords full.members := by
  have closed : Json.optional "additionalProperties" (fun _ => .bool false) plain.properties =
      Json.optional "additionalProperties" (fun _ => .bool false) full.properties := by
    simpa only [Json.optional_map] using
      congrArg (Json.optional "additionalProperties" fun _ => .bool false) leavesOut.properties
  have choice : Json.optional "anyOf" (fun branches => .array (branchesToJson branches))
      plain.anyOf = Json.optional "anyOf" .array (plain.anyOf.map (List.map toJson)) := by
    simp only [Json.optional_map, branchesToJson_eq]
  have properties : Json.optional "properties"
      (fun schemas => Json.record (propertiesToJson schemas)) plain.properties =
        Json.optional "properties" Json.record
          (plain.properties.map (Entries.mapValues toJson)) := by
    simp only [Json.optional_map, propertiesToJson_eq]
  rw [Schema.members_eq plain, Schema.members_eq full, closed, choice, properties, leavesOut.anyOf,
    leavesOut.properties, leavesOut.enum, leavesOut.maxLength, leavesOut.pattern, leavesOut.types,
    leavesOut.title, leavesOut.description, leavesOut.default, leavesOut.format, leavesOut.notes,
    leavesOut.precision]
  simp (disch := decide) only [keptKeywords_append, keptKeywords_anyOf, keptKeywords_properties,
    keptKeywords_typeToJson, keptKeywords_nonempty, keptKeywords_optional]
  rfl

theorem LeavesOut.toJson_eq {plain full : Schema} (leavesOut : LeavesOut plain full) :
    plain.toJson = withoutExtensions full.toJson :=
  congrArg Json.object leavesOut.members_eq

end Schema

/-- What a document says about the model as a whole are extensions too. -/
theorem Document.toJson_of_leavesOut {plain : Schema} {document : Document}
    (leavesOut : Schema.LeavesOut plain document.root) :
    Document.toJson { root := plain, types := none, nonNullable := none } =
      withoutExtensions document.toJson := by
  have language : ∀ rest, keptKeywords (("$schema", .string draft) :: rest) =
      ("$schema", .string draft) :: keptKeywords rest := fun _ => rfl
  simp (disch := decide) only [toJson, withoutExtensions, List.cons_append, language,
    keptKeywords_append, keptKeywords_optional, ← leavesOut.members_eq]
  rfl

end Draft7

end FieldRules

namespace FieldRules

open Draft7

/-! A schema that is asked for without extensions is the one with extensions after these are
taken out. -/

namespace Validator

/-- The schemas of a validator with and without extensions agree on everything else. -/
def DropsExtensions (validator : Validator) : Prop :=
  (validator.schema false).toJson = withoutExtensions (validator.schema true).toJson

theorem mapValues_dropsExtensions {entries : Entries Validator}
    (each : ∀ entry ∈ entries, entry.2.DropsExtensions) :
    (entries.mapValues (schema false)).mapValues Schema.toJson =
      (entries.mapValues (schema true)).mapValues fun schema =>
        withoutExtensions schema.toJson := by
  simp only [Entries.mapValues, List.map_map]
  exact List.map_congr_left fun entry member => congrArg (Prod.mk entry.1) (each entry member)

theorem leavesOut_ruleSchema {rule : Rule Validator}
    (each : ∀ part ∈ rule.inner, part.DropsExtensions) :
    Schema.LeavesOut (ruleSchema false rule) (ruleSchema true rule) := by
  cases rule with
  | object keys =>
      have eachKey : ∀ key ∈ keys, key.2.DropsExtensions := fun key member =>
        each key.2 (List.mem_map_of_mem member)
      have properties := mapValues_dropsExtensions eachKey
      constructor
      case properties =>
        cases keys with
        | nil => rfl
        | cons key others => simpa [ruleSchema, keySchemas_eq] using properties
      all_goals rfl
  | alternatives options =>
      constructor
      case anyOf =>
        simp only [ruleSchema, optionSchemas_eq, Option.map_some, List.map_map]
        exact congrArg some (List.map_congr_left fun option member => each option member)
      all_goals rfl
  | any | array | boolean | number | string | date => constructor <;> rfl

theorem leavesOut_schema {validator : Validator}
    (each : ∀ part ∈ validator.inner, part.DropsExtensions) :
    Schema.LeavesOut (validator.schema false) (validator.schema true) := by
  have ruled := leavesOut_ruleSchema each
  obtain ⟨rule, allow, valid, description, notes, default, label⟩ := validator
  cases valid with
  | some valid => constructor <;> rfl
  | none =>
      cases allow with
      | nil =>
          exact { ruled with
            title := rfl, description := rfl, default := rfl, notes := rfl }
      | cons first others =>
          have listed : Schema.LeavesOut { enum := some (first :: others) }
              { enum := some (first :: others) } := by constructor <;> rfl
          constructor
          case anyOf =>
            simp only [schema, document, Option.map_some, List.map_cons, List.map_nil,
              ruled.toJson_eq, ← listed.toJson_eq]
          all_goals rfl

theorem dropsExtensions (validator : Validator) : validator.DropsExtensions := by
  induction validator using inductionOn with
  | step validator ih => exact (leavesOut_schema ih).toJson_eq

end Validator

namespace ModelRules

theorem leavesOut_root (rules : ModelRules) :
    Schema.LeavesOut (rules.schema false).root (rules.schema true).root := by
  constructor
  case properties =>
    exact congrArg some (Validator.mapValues_dropsExtensions fun entry _ =>
      Validator.dropsExtensions entry.2)
  all_goals rfl

/-- Without extensions, the schema of a validator and that of a model are what is left of the
schemas with extensions when these are taken out, at every place of a schema and nowhere else. -/
theorem schema_without_extensions :
    (∀ validator : Validator,
      (validator.schema false).toJson = withoutExtensions (validator.schema true).toJson) ∧
    ∀ rules : ModelRules,
      (rules.schema false).toJson = withoutExtensions (rules.schema true).toJson :=
  ⟨Validator.dropsExtensions, fun rules => Document.toJson_of_leavesOut rules.leavesOut_root⟩

/-- A property and a default are no keywords, whatever they are called. -/
example :
    withoutExtensions (Validator.schema true {
      rule := .object [("x-notes", {
        rule := .number false (some 2), default := some (.object [("x-types", .null)]) })]
      notes := ["a note"] }).toJson =
      .object [
        ("additionalProperties", .bool false),
        ("properties", .object [("x-notes", .object [
          ("default", .object [("x-types", .null)]), ("type", .string "number")])]),
        ("type", .string "object")] := rfl

end ModelRules

end FieldRules
