import FieldRules.Draft7.Issue
import FieldRules.Proofs.Draft7.Evaluation
import Mathlib.Tactic.FinCases

namespace FieldRules.Draft7

open Json

/-! A schema that finds no issue with a value is one whose keywords the value obeys. -/

namespace Schema

private theorem isEmpty_append (first second : List α) :
    (first ++ second).isEmpty = (first.isEmpty && second.isEmpty) := by
  cases first with
  | nil => rfl
  | cons head tail => rfl

theorem memberIssues_isEmpty (issuesOf : String → Json → Option (List Issue)) (value : Json) :
    (memberIssues issuesOf value).isEmpty =
      value.members.all fun member => ((issuesOf member.1 member.2).getD []).isEmpty := by
  rw [Bool.eq_iff_iff]
  cases value with
  | object members => simp [memberIssues, Json.members]
  | _ => simp [memberIssues, Json.members]

theorem unexpectedIssues_isEmpty (known : List String) (value : Json) (path : List String) :
    (unexpectedIssues known value path).isEmpty =
      value.members.all fun member => known.contains member.1 := by
  have unexpected : (unexpectedIssues known value path).isEmpty =
      (unexpected known value).isEmpty := by
    cases names : Schema.unexpected known value with
    | nil => simp [unexpectedIssues, names]
    | cons name others => simp [unexpectedIssues, names]
  rw [unexpected, Bool.eq_iff_iff]
  cases value with
  | object members => simp [Schema.unexpected, Json.members]
  | _ => simp [Schema.unexpected, Json.members]

theorem enumIssues_isEmpty (accepted : List Json) (value : Json) (path : List String) :
    (enumIssues accepted value path).isEmpty = accepted.any value.equal := by
  cases listed : accepted.any value.equal with
  | false => simp [enumIssues, listed]
  | true => simp [enumIssues, listed]

theorem lengthIssues_isEmpty (limit : UInt64) (value : Json) (path : List String) :
    (lengthIssues limit value path).isEmpty = Engine.withinLength limit value := by
  cases value with
  | string text =>
      by_cases short : text.length ≤ limit.toNat
      · simp [lengthIssues, Engine.withinLength, short]
      · simp [lengthIssues, Engine.withinLength, short]
  | _ => rfl

def patternHolds (pattern : Pattern) : Json → Bool
  | .string text => pattern.accepts text
  | _ => true

theorem patternIssues_isEmpty (pattern : Pattern) (value : Json) (path : List String) :
    (patternIssues pattern value path).isEmpty = patternHolds pattern value := by
  cases value with
  | string text =>
      cases accepts : pattern.accepts text with
      | false => simp [patternIssues, patternHolds, accepts]
      | true => simp [patternIssues, patternHolds, accepts]
  | _ => rfl

theorem typeIssues_isEmpty (types : List JsonType) (value : Json) (path : List String) :
    (typeIssues types value path).isEmpty =
      (types.isEmpty || types.any (·.accepts value)) := by
  unfold typeIssues
  split
  · next accepted => exact accepted.symm
  · next refused => exact (Bool.eq_false_iff.mpr refused).symm

theorem perhaps_isEmpty (issues : α → List Issue) (constraint : Option α) :
    (perhaps issues constraint).isEmpty = constraint.all fun constraint =>
      (issues constraint).isEmpty := by
  cases constraint with
  | none => rfl
  | some constraint => rfl

theorem anyAccepts_eq (branches : List Schema) (value : Json) :
    anyAccepts branches value = branches.any (·.accepts value) := by
  induction branches with
  | nil => rfl
  | cons branch rest ih => simp [anyAccepts, accepts, ih]

theorem propertyIssues?_eq (schemas : Entries Schema) (path : List String) (name : String)
    (value : Json) :
    propertyIssues? schemas path name value =
      (schemas.get? name).map fun schema => issues schema value (path ++ [name]) := by
  induction schemas with
  | nil => rfl
  | cons property rest ih =>
      obtain ⟨key, schema⟩ := property
      by_cases equal : name = key
      · simp [propertyIssues?, equal]
      · simp [propertyIssues?, equal, ih]

/-- An object's members have no issue and are expected if each has a schema that finds none. -/
theorem propertiesIssues_isEmpty (schemas : Entries Schema) (value : Json)
    (path : List String) :
    (memberIssues (propertyIssues? schemas path) value ++
      unexpectedIssues schemas.names value path).isEmpty =
      value.members.all fun member => (schemas.get? member.1).any fun schema =>
        (issues schema member.2 (path ++ [member.1])).isEmpty := by
  rw [isEmpty_append, memberIssues_isEmpty, unexpectedIssues_isEmpty]
  have each : ∀ member : String × Json,
      (((propertyIssues? schemas path member.1 member.2).getD []).isEmpty &&
        schemas.names.contains member.1) =
        (schemas.get? member.1).any fun schema =>
          (issues schema member.2 (path ++ [member.1])).isEmpty := by
    intro member
    rw [propertyIssues?_eq]
    cases found : schemas.get? member.1 with
    | none => simp [Entries.get?_eq_none_iff.mp found]
    | some schema =>
        have known : member.1 ∈ schemas.names := by
          by_contra absent
          simp [Entries.get?_eq_none_iff.mpr absent] at found
        simp [known]
  rw [Bool.eq_iff_iff]
  simp only [← each, Bool.and_eq_true, List.all_eq_true]
  exact forall₂_and.symm

/-- The issues of a schema, each from a keyword that may be absent. -/
theorem issues_eq (schema : Schema) (value : Json) (path : List String) :
    schema.issues value path =
      perhaps (fun schemas => memberIssues (propertyIssues? schemas path) value
        ++ unexpectedIssues (Entries.names schemas) value path) schema.properties
      ++ perhaps (fun branches =>
          if anyAccepts branches value then [] else [⟨.noBranch value, path⟩]) schema.anyOf
      ++ perhaps (enumIssues · value path) schema.enum
      ++ perhaps (lengthIssues · value path) schema.maxLength
      ++ perhaps (patternIssues · value path) schema.pattern
      ++ typeIssues schema.types value path := by
  obtain ⟨anyOf, enum, maxLength, pattern, properties, types, title, description, default,
    format, notes, precision⟩ := schema
  cases properties with
  | none =>
      cases anyOf with
      | none => rfl
      | some branches => rfl
  | some schemas =>
      cases anyOf with
      | none => rfl
      | some branches => rfl

theorem issues_isEmpty (schema : Schema) (value : Json) (path : List String) :
    (schema.issues value path).isEmpty =
      (schema.properties.all (fun schemas =>
        value.members.all fun member => (Entries.get? schemas member.1).any fun schema =>
          (issues schema member.2 (path ++ [member.1])).isEmpty) &&
      schema.anyOf.all (fun branches => branches.any (·.accepts value)) &&
      schema.enum.all (·.any value.equal) &&
      schema.maxLength.all (Engine.withinLength · value) &&
      schema.pattern.all (patternHolds · value) &&
      (schema.types.isEmpty || schema.types.any (·.accepts value))) := by
  have branches : ∀ branches, (if anyAccepts branches value then []
      else [(⟨.noBranch value, path⟩ : Issue)]).isEmpty = branches.any (·.accepts value) := by
    intro branches
    rw [← anyAccepts_eq]
    split
    · next accepted => exact accepted.symm
    · next refused => exact (Bool.eq_false_iff.mpr refused).symm
  rw [issues_eq, isEmpty_append, isEmpty_append, isEmpty_append, isEmpty_append, isEmpty_append]
  simp only [perhaps_isEmpty, propertiesIssues_isEmpty, branches, enumIssues_isEmpty,
    lengthIssues_isEmpty, patternIssues_isEmpty, typeIssues_isEmpty]

private theorem sizeOf_property_lt {schema inner : Schema} {schemas : Entries Schema}
    {name : String} (declared : schema.properties = some schemas)
    (found : schemas.get? name = some inner) : sizeOf inner < sizeOf schema := by
  have smaller := List.sizeOf_lt_of_mem (Entries.mem_of_get? found)
  obtain ⟨anyOf, enum, maxLength, pattern, properties, types, title, description, default,
    format, notes, precision⟩ := schema
  cases declared
  simp only [Prod.mk.sizeOf_spec] at smaller
  simp only [Schema.mk.sizeOf_spec, Option.some.sizeOf_spec]
  omega

/-- Where in a record a value stands does not matter to whether it has issues. -/
theorem issues_isEmpty_path (schema : Schema) (value : Json) (path : List String) :
    (schema.issues value path).isEmpty = schema.accepts value := by
  rw [accepts, issues_isEmpty, issues_isEmpty]
  congr 5
  cases declared : schema.properties with
  | none => rfl
  | some schemas =>
      have each : ∀ member : String × Json,
          (Entries.get? schemas member.1).any (fun inner =>
              (issues inner member.2 (path ++ [member.1])).isEmpty) =
            (Entries.get? schemas member.1).any (fun inner =>
              (issues inner member.2 ([] ++ [member.1])).isEmpty) := by
        intro member
        cases found : Entries.get? schemas member.1 with
        | none => rfl
        | some inner =>
            have smaller := sizeOf_property_lt declared found
            rw [Option.any_some, Option.any_some, issues_isEmpty_path inner,
              issues_isEmpty_path inner]
      simp only [Option.all_some, each]
termination_by sizeOf schema

end Schema

/-- The engine that compares numbers by value and looks for the patterns of validators. -/
def Engine.draft7 : Engine where
  finds expression text :=
    [Pattern.guid, Pattern.iso8601].any fun pattern =>
      pattern.source == expression && pattern.accepts text
  equalNumbers := Number.equal
  respects := Number.respects_equal

theorem Engine.draft7_foundIn {pattern : Pattern} (known : pattern = .guid ∨ pattern = .iso8601)
    (value : Json) : draft7.foundIn pattern.source value = Schema.patternHolds pattern value := by
  have differ : Pattern.guid.source ≠ Pattern.iso8601.source := by decide
  cases value with
  | string text =>
      rcases known with rfl | rfl
      · simp [foundIn, draft7, Schema.patternHolds, differ.symm]
      · simp [foundIn, draft7, Schema.patternHolds, differ]
  | _ => rfl

theorem Schema.Regular.accepts_eq {schema : Schema} (regular : schema.Regular) (value : Json) :
    schema.accepts value = Engine.draft7.obeys accepts schema value := by
  have pattern : schema.pattern.all (patternHolds · value) =
      schema.pattern.all fun pattern => Engine.draft7.foundIn pattern.source value := by
    cases declared : schema.pattern with
    | none => rfl
    | some pattern => exact (Engine.draft7_foundIn (regular.pattern pattern declared) value).symm
  rw [accepts, issues_isEmpty, pattern]
  simp only [issues_isEmpty_path]
  rfl

end FieldRules.Draft7

namespace FieldRules.Draft7

/-! What draft 7 asks of a document for it to be a schema, at every place of a schema. -/

/-- What is asked of a keyword that has no schemas inside. Unknown names are free. -/
def KeywordShaped (name : String) (argument : Json) : Prop :=
  match name with
  | "type" =>
      (∃ type : JsonType, argument = .string type.name) ∨
        ∃ types : List JsonType,
          types ≠ [] ∧ types.Nodup ∧ argument = Json.strings (types.map JsonType.name)
  | "enum" => ∃ values, argument = .array values
  | "maxLength" => ∃ limit fits, 0 ≤ limit ∧ argument = .number (.whole limit fits)
  | "pattern" | "title" | "description" => ∃ text, argument = .string text
  | "additionalProperties" => ∃ verdict, argument = .bool verdict
  | _ => True

mutual

/-- A schema is a verdict or an object of keywords. -/
def WellShaped : Json → Prop
  | .bool _ => True
  | .object keywords => AllShaped keywords
  | _ => False

def AllShaped : List (String × Json) → Prop
  | [] => True
  | (name, argument) :: rest =>
      (if name = "anyOf" then ChoiceShaped argument
        else if name = "properties" then PropertiesShaped argument
        else KeywordShaped name argument)
      ∧ AllShaped rest

/-- A choice has at least one branch. -/
def ChoiceShaped : Json → Prop
  | .array branches => branches ≠ [] ∧ BranchesShaped branches
  | _ => False

def BranchesShaped : List Json → Prop
  | [] => True
  | branch :: rest => WellShaped branch ∧ BranchesShaped rest

def PropertiesShaped : Json → Prop
  | .object schemas => SchemasShaped schemas
  | _ => False

def SchemasShaped : List (String × Json) → Prop
  | [] => True
  | (_, schema) :: rest => WellShaped schema ∧ SchemasShaped rest

end

theorem branchesShaped_iff {branches : List Json} :
    BranchesShaped branches ↔ ∀ branch ∈ branches, WellShaped branch := by
  induction branches with
  | nil => simp [BranchesShaped]
  | cons branch rest ih => simp [BranchesShaped, ih]

theorem schemasShaped_iff {schemas : List (String × Json)} :
    SchemasShaped schemas ↔ ∀ property ∈ schemas, WellShaped property.2 := by
  induction schemas with
  | nil => simp [SchemasShaped]
  | cons property rest ih =>
      obtain ⟨name, schema⟩ := property
      simp only [SchemasShaped, ih, List.forall_mem_cons]

theorem allShaped_append {first second : List (String × Json)} :
    AllShaped (first ++ second) ↔ AllShaped first ∧ AllShaped second := by
  induction first with
  | nil => simp [AllShaped]
  | cons keyword rest ih =>
      obtain ⟨name, argument⟩ := keyword
      simp only [List.cons_append, AllShaped, ih, and_assoc]

theorem allShaped_optional {name : String} {encode : α → Json} {option : Option α} :
    AllShaped (Json.optional name encode option) ↔
      ∀ argument ∈ option, AllShaped [(name, encode argument)] := by
  cases option with
  | none => simp [AllShaped]
  | some argument => simp

theorem allShaped_nonempty {name : String} {encode : List α → Json} {arguments : List α}
    (shaped : AllShaped [(name, encode arguments)]) :
    AllShaped (Json.nonempty name encode arguments) := by
  cases arguments with
  | nil => exact trivial
  | cons argument rest => exact shaped

namespace Schema

theorem allShaped_typeToJson {types : List JsonType} (distinct : types.Nodup) :
    AllShaped (typeToJson types) := by
  match types with
  | [] => exact trivial
  | [type] => exact ⟨Or.inl ⟨type, rfl⟩, trivial⟩
  | first :: second :: rest =>
      exact ⟨Or.inr ⟨first :: second :: rest, by simp, distinct, rfl⟩, trivial⟩

theorem allShaped_anyOf {branches : List Schema} :
    AllShaped [("anyOf", .array (branchesToJson branches))] ↔
      branches ≠ [] ∧ ∀ branch ∈ branches, WellShaped branch.toJson := by
  simp [AllShaped, ChoiceShaped, branchesShaped_iff, branchesToJson_eq]

theorem allShaped_properties {schemas : Entries Schema} (distinct : schemas.Distinct) :
    AllShaped [("properties", Json.record (propertiesToJson schemas))] ↔
      ∀ property ∈ schemas, WellShaped property.2.toJson := by
  have perm := sort_propertiesToJson_perm distinct
  have sorted : AllShaped [("properties", Json.record (propertiesToJson schemas))] ↔
      ∀ property ∈ Entries.sort (propertiesToJson schemas), WellShaped property.2 := by
    simp [AllShaped, Json.record, PropertiesShaped, schemasShaped_iff]
  rw [sorted]
  simp only [perm.mem_iff, Entries.mapValues, List.forall_mem_map]

/-- A schema's document is in shape if its choice has a branch and the documents of the
schemas within are in shape. -/
theorem Regular.wellShaped_iff {schema : Schema} (regular : schema.Regular) :
    WellShaped schema.toJson ↔
      (∀ schemas ∈ schema.properties, ∀ property ∈ schemas, WellShaped property.2.toJson) ∧
      ∀ branches ∈ schema.anyOf, branches ≠ [] ∧ ∀ branch ∈ branches, WellShaped branch.toJson := by
  have free : ∀ name ∈ ["default", "x-format", "x-notes", "x-precision"],
      ∀ argument, AllShaped [(name, argument)] := by
    simp [AllShaped, KeywordShaped]
  have text : ∀ name ∈ ["description", "pattern", "title"],
      ∀ text, AllShaped [(name, .string text)] := by
    simp [AllShaped, KeywordShaped]
  have enum : ∀ values, AllShaped [("enum", .array values)] := by
    intro values
    simp [AllShaped, KeywordShaped]
  have maxLength : ∀ limit, AllShaped [("maxLength", Json.ofUInt64 limit)] := by
    intro limit
    exact ⟨⟨limit.toNat, _, Int.natCast_nonneg _, rfl⟩, trivial⟩
  have closed : AllShaped [("additionalProperties", .bool false)] := by
    simp [AllShaped, KeywordShaped]
  have properties : (∀ schemas ∈ schema.properties,
      AllShaped [("properties", Json.record (propertiesToJson schemas))]) ↔
        ∀ schemas ∈ schema.properties, ∀ property ∈ schemas, WellShaped property.2.toJson :=
    forall₂_congr fun schemas declared => allShaped_properties (regular.properties schemas declared)
  have choice : (∀ branches ∈ schema.anyOf,
      AllShaped [("anyOf", .array (branchesToJson branches))]) ↔
        ∀ branches ∈ schema.anyOf,
          branches ≠ [] ∧ ∀ branch ∈ branches, WellShaped branch.toJson :=
    forall₂_congr fun branches _ => allShaped_anyOf
  rw [toJson, WellShaped, members_eq]
  simp only [allShaped_append, allShaped_optional, properties, choice, closed, enum, maxLength,
    free "default" (by simp), free "x-format" (by simp), free "x-precision" (by simp),
    allShaped_nonempty (free "x-notes" (by simp) _), allShaped_typeToJson regular.types,
    text "description" (by simp), text "pattern" (by simp), text "title" (by simp)]
  simp [and_comm]

theorem branchesInhabited_iff {branches : List Schema} :
    branchesInhabited branches = true ↔ ∀ branch ∈ branches, branch.choicesInhabited = true := by
  induction branches with
  | nil => simp [branchesInhabited]
  | cons branch rest ih => simp [branchesInhabited, ih]

theorem propertiesInhabited_iff {schemas : List (String × Schema)} :
    propertiesInhabited schemas = true ↔
      ∀ property ∈ schemas, property.2.choicesInhabited = true := by
  induction schemas with
  | nil => simp [propertiesInhabited]
  | cons property rest ih =>
      obtain ⟨name, schema⟩ := property
      simp only [propertiesInhabited, Bool.and_eq_true, ih, List.forall_mem_cons]

theorem choicesInhabited_iff {schema : Schema} :
    schema.choicesInhabited = true ↔
      (∀ schemas ∈ schema.properties, ∀ property ∈ schemas,
        property.2.choicesInhabited = true) ∧
      ∀ branches ∈ schema.anyOf,
        branches ≠ [] ∧ ∀ branch ∈ branches, branch.choicesInhabited = true := by
  obtain ⟨anyOf, enum, maxLength, pattern, properties, types, title, description, default,
    format, notes, precision⟩ := schema
  cases anyOf with
  | none =>
      cases properties with
      | none => simp [choicesInhabited]
      | some schemas => simp [choicesInhabited, propertiesInhabited_iff]
  | some branches =>
      cases properties with
      | none => simp [choicesInhabited, branchesInhabited_iff]
      | some schemas =>
          simp [choicesInhabited, branchesInhabited_iff, propertiesInhabited_iff, and_comm]

end Schema

end FieldRules.Draft7
