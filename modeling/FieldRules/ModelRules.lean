import FieldRules.Attribute
import FieldRules.Error
import FieldRules.Validator.Json

namespace FieldRules

/-- The entry of a field in a model's registry of types: the type that was declared
for the field and the one to use in queries. -/
structure TypeEntry where
  declared : String
  query : String
deriving DecidableEq

def TypeEntry.ofName (name : String) : TypeEntry := ⟨name, name⟩

/-- What a model compiles to. Fields stand in the order in which their keys first
came. -/
structure ModelRules where
  modelName : String
  validators : Entries Validator
  types : Entries TypeEntry
  nonNullable : List String

namespace ModelRules

def fields (rules : ModelRules) : List String := rules.validators.names

def validator? (rules : ModelRules) (key : String) : Option Validator :=
  rules.validators.get? key

def type? (rules : ModelRules) (key : String) : Option TypeEntry := rules.types.get? key

def isNonNullable (rules : ModelRules) (key : String) : Bool := rules.nonNullable.contains key

/-- Sets the type to use in queries, if there is a field with the key. -/
def setQuery (rules : ModelRules) (key query : String) : ModelRules :=
  { rules with types := rules.types.update key fun entry => { entry with query } }

private def sameEntries (same : α → α → Bool) (a b : Entries α) : Bool :=
  a.length == b.length && a.all fun entry =>
    match b.get? entry.1 with
    | some value => same entry.2 value
    | none => false

/-- The order of fields does not count, that of the non-nullable keys does. -/
def same (a b : ModelRules) : Bool :=
  a.modelName == b.modelName && sameEntries Validator.same a.validators b.validators
    && sameEntries (fun x y => x == y) a.types b.types && a.nonNullable == b.nonNullable

end ModelRules

namespace Attribute

/-! A field's validator: the type gives a rule, nullability adds to what it
accepts, an override takes its place, and the attribute's documentation is added
to either. -/

def geometryTypes : List String := ["POINT", "LINESTRING", "POLYGON"]

def geometry : Validator :=
  Validator.object.keys [
    ("type", Validator.string.restrictedTo (geometryTypes.map .string)),
    ("coordinates", Validator.array),
    ("crs", Validator.object)]

def sequenceOrObject : Validator := .alternatives [Validator.array, Validator.object]

/-- The attribute's own format goes before the type's; for the length, the
precision and the values it is the other way around. -/
def format? (attr : Attribute) (resolved : ResolvedType) : Option String :=
  attr.format <|> resolved.format

def max? (attr : Attribute) (resolved : ResolvedType) : Option UInt64 :=
  resolved.max <|> attr.max

def precision? (attr : Attribute) (resolved : ResolvedType) : Option UInt32 :=
  resolved.precision <|> attr.precision

def values? (attr : Attribute) (resolved : ResolvedType) : Option (List String) :=
  resolved.values <|> attr.values

/-- Values that stand in a field of an enumeration: the declared ones, and null
first if the field may be null. -/
def enumeration (attr : Attribute) (values : List String) : Validator :=
  Validator.string.restrictedTo
    ((if attr.isNullable then [Json.null] else []) ++ values.map .string)

/-- The rule that goes with a type; nothing for an enumeration without values. -/
def base? (attr : Attribute) (resolved : ResolvedType) : Option Validator :=
  match resolved.type with
  | .array => some .array
  | .bigInteger | .integer => some Validator.number.integer
  | .boolean => some .boolean
  | .date =>
      some { rule := .date attr.iso (attr.format? resolved) }
  | .dateOnly => some { rule := .date false (attr.format? resolved) }
  | .decimal | .double | .float | .real =>
      some { rule := .number false (attr.precision? resolved) }
  | .string => some { rule := .string (attr.max? resolved) false }
  | .text => some .string
  | .enumeration => (attr.values? resolved).map attr.enumeration
  | .geometry => some geometry
  | .uuid => some Validator.string.guid
  | .json | .jsonb | .other _ => some sequenceOrObject

/-- Null is accepted as well, and the empty text where the rule is about texts. -/
def orNull (validator : Validator) : Validator :=
  validator.allowing <|
    if validator.kind = .string then [.null, .string ""] else [.null]

/-- An enumeration has null among its values already. -/
def standard? (attr : Attribute) (resolved : ResolvedType) : Option Validator :=
  (attr.base? resolved).map fun validator =>
    if attr.isNullable && resolved.type != .enumeration then orNull validator else validator

def primaryKeyNote : String := "Primary Key"

def autoIncrementNote : String :=
  "This will automatically increment to the next value when the model is created."

def present (text : Option String) : Option String := text.filter (· != "")

/-- A description is only kept where there is a comment too. -/
def documentedBy (attr : Attribute) : Option String :=
  match present attr.description, present attr.comment with
  | some description, some _ => some description
  | _, _ => none

def notes (attr : Attribute) : List String :=
  (if attr.primaryKey then [primaryKeyNote] else [])
    ++ (if attr.autoIncrement then [autoIncrementNote] else [])

/-- Adds the attribute's documentation. The label is always set, to the key if
there is no other. -/
def annotate (attr : Attribute) (key : String) (validator : Validator) : Validator :=
  { validator with
    description := attr.documentedBy <|> validator.description
    notes := validator.notes ++ attr.notes
    default := attr.defaultValue.filter Json.isTruthy <|> validator.default
    label := some ((present attr.label).getD key) }

/-- The validator and type entry of one field. The type has to be in order even
if an override takes the place of its rule. -/
def compile (modelName key : String) (attr : Attribute) :
    Except Error (Validator × TypeEntry) :=
  match attr.typeRef.map TypeRef.resolve with
  | none | some (.error _) => .error (.missingType modelName key)
  | some (.ok resolved) =>
      match attr.standard? resolved with
      | none => .error (.missingValues modelName key)
      | some standard =>
          .ok (attr.annotate key (attr.override.getD standard), .ofName resolved.name)

end Attribute

namespace ModelRules

def empty (modelName : String) : ModelRules := ⟨modelName, [], [], []⟩

/-- Adds a field, or replaces the one with the same key where it stands. Its place
among the non-nullable keys is the last one. -/
def add (rules : ModelRules) (key : String) (attr : Attribute) : Except Error ModelRules := do
  let (validator, type) ← attr.compile rules.modelName key
  let others := rules.nonNullable.filter (· != key)
  return {
    rules with
    validators := rules.validators.put key validator
    types := rules.types.put key type
    nonNullable := if attr.isNullable then others else others ++ [key] }

/-- Compiles attributes in order; the first one that cannot be compiled decides
the error. -/
def compile (modelName : String) (attributes : List (String × Attribute)) :
    Except Error ModelRules :=
  attributes.foldlM (fun rules entry => rules.add entry.1 entry.2) (empty modelName)

end ModelRules

end FieldRules

namespace FieldRules

open Json Reading

namespace TypeEntry

def toJson (entry : TypeEntry) : Json :=
  .object [("original", .string entry.declared), ("query", .string entry.query)]

def layout : Layout TypeEntry where
  title := "struct FieldType"
  blank := ⟨"", ""⟩
  strict := false
  members := [
    ⟨"original", true, fun _ o entry => return { entry with declared := ← o.readString }⟩,
    ⟨"query", true, fun _ o entry => return { entry with query := ← o.readString }⟩]

end TypeEntry

namespace ModelRules

def toJson (rules : ModelRules) : Json :=
  .object [
    ("modelName", .string rules.modelName),
    ("validators", .object (rules.validators.mapValues Validator.toJson)),
    ("types", .object (rules.types.mapValues TypeEntry.toJson)),
    ("nonNullableKeys", Json.strings rules.nonNullable)]

def layout : Layout ModelRules where
  title := "struct CompiledSchema"
  blank := ⟨"", [], [], []⟩
  strict := false
  members := [
    ⟨"modelName", true, fun _ o rules => return { rules with modelName := ← o.readString }⟩,
    ⟨"validators", true, fun scope o rules =>
      return { rules with validators := ← o.readEntries scope Validator.read }⟩,
    ⟨"types", true, fun scope o rules =>
      return { rules with types := ← o.readEntries scope TypeEntry.layout.read }⟩,
    ⟨"nonNullableKeys", true, fun scope o rules =>
      return { rules with nonNullable := ← o.readStrings scope }⟩]

def read : Scope → Outline → Except ReadError ModelRules := layout.read

def parse : String → Except ReadError ModelRules := Reading.document read

end ModelRules

end FieldRules
