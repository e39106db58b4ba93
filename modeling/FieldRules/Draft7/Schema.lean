import FieldRules.ModelRules

namespace FieldRules.Draft7

/-- The characters that one place of a pattern accepts. -/
inductive CharSet
  | only (c : Char)
  | digit
  | hexDigit
  | among (chars : List Char)
deriving DecidableEq

inductive Pattern
  | one (set : CharSet)
  | exactly (count : Nat) (set : CharSet)
  | many (set : CharSet)
  | optional (part : Pattern)
  | either (first second : Pattern)
  | sequence (first second : Pattern)
deriving DecidableEq

namespace CharSet

def accepts : CharSet → Char → Bool
  | .only c, d => c == d
  | .digit, d => d.isDigit
  | .hexDigit, d => d.isDigit || ('a' ≤ d && d ≤ 'f') || ('A' ≤ d && d ≤ 'F')
  | .among chars, d => chars.contains d

def source : CharSet → String
  | .only c => if c = '.' then "\\." else c.toString
  | .digit => "\\d"
  | .hexDigit => "[0-9a-fA-F]"
  | .among chars => "[" ++ String.ofList chars ++ "]"

end CharSet

namespace Pattern

/-! A pattern is matched by following all ways to consume the start of a text. -/

/-- What can be left of a text after one or more characters of a set. -/
def afterMany (set : CharSet) : List Char → List (List Char)
  | [] => []
  | c :: rest => if set.accepts c then rest :: afterMany set rest else []

def afterExactly (set : CharSet) : Nat → List Char → List (List Char)
  | 0, text => [text]
  | _ + 1, [] => []
  | count + 1, c :: rest => if set.accepts c then afterExactly set count rest else []

/-- What can be left of a text after the pattern. -/
def after : Pattern → List Char → List (List Char)
  | .one set, text => afterExactly set 1 text
  | .exactly count set, text => afterExactly set count text
  | .many set, text => afterMany set text
  | .optional part, text => after part text ++ [text]
  | .either first second, text => after first text ++ after second text
  | .sequence first second, text => (after first text).flatMap (after second)

def accepts (pattern : Pattern) (text : String) : Bool :=
  (pattern.after text.toList).any List.isEmpty

def inner : Pattern → String
  | .one set => set.source
  | .exactly count set => set.source ++ "\x7b" ++ toString count ++ "\x7d"
  | .many set => set.source ++ "+"
  | .optional (.one set) => set.source ++ "?"
  | .optional part => "(" ++ part.inner ++ ")?"
  | .either first second => first.inner ++ "|" ++ second.inner
  | .sequence first second => first.inner ++ second.inner

/-- The regular expression, which is tied to both ends of a text. -/
def source (pattern : Pattern) : String := "^" ++ pattern.inner ++ "$"

def ofList : List Pattern → Pattern
  | [] => .exactly 0 .digit
  | [part] => part
  | part :: rest => .sequence part (ofList rest)

/-- Groups of 8, 4, 4, 4 and 12 hexadecimal digits with optional hyphens, and
optionally a brace or parenthesis at either end. -/
def guid : Pattern :=
  let hyphen := Pattern.optional (.one (.only '-'))
  ofList [
    .optional (.one (.among ['{', '('])),
    .exactly 8 .hexDigit, hyphen, .exactly 4 .hexDigit, hyphen, .exactly 4 .hexDigit,
    hyphen, .exactly 4 .hexDigit, hyphen, .exactly 12 .hexDigit,
    .optional (.one (.among ['}', ')']))]

/-- A date, optionally with a time, which may have seconds, a fraction of them and
a zone. -/
def iso8601 : Pattern :=
  let two := Pattern.exactly 2 .digit
  let colon := Pattern.one (.only ':')
  let hyphen := Pattern.one (.only '-')
  let fraction := Pattern.optional (ofList [.one (.only '.'), .many .digit])
  let seconds := Pattern.optional (ofList [colon, two, fraction])
  let offset := ofList [.one (.among ['+', '-']), two,
    .optional (ofList [.optional colon, two])]
  let zone := Pattern.optional (.either (.one (.only 'Z')) offset)
  let time := Pattern.optional (ofList [.one (.only 'T'), two, colon, two, seconds, zone])
  ofList [.exactly 4 .digit, hyphen, two, hyphen, two, time]

end Pattern

inductive JsonType
  | array
  | boolean
  | integer
  | null
  | number
  | object
  | string
deriving DecidableEq

/-- A schema, as far as validators need the language. Keywords that constrain a
value come first; `properties` allows no other members. The rest describes, the
last three as extensions. -/
structure Schema where
  anyOf : Option (List Schema) := none
  enum : Option (List Json) := none
  maxLength : Option UInt64 := none
  pattern : Option Pattern := none
  properties : Option (List (String × Schema)) := none
  types : List JsonType := []
  title : Option String := none
  description : Option String := none
  default : Option Json := none
  format : Option String := none
  notes : List String := []
  precision : Option UInt32 := none

/-- A schema for records with what is known about the model as a whole. -/
structure Document where
  root : Schema
  types : Option (Entries String)
  nonNullable : Option (List String)

namespace JsonType

def all : List JsonType := [.array, .boolean, .integer, .null, .number, .object, .string]

def name : JsonType → String
  | .array => "array"
  | .boolean => "boolean"
  | .integer => "integer"
  | .null => "null"
  | .number => "number"
  | .object => "object"
  | .string => "string"

/-- A whole number is a number, and a double without a fraction is an integer. -/
def accepts : JsonType → Json → Bool
  | .array, .array _ => true
  | .boolean, .bool _ => true
  | .integer, .number value => value.isWhole
  | .null, .null => true
  | .number, .number _ => true
  | .object, .object _ => true
  | .string, .string _ => true
  | _, _ => false

end JsonType

namespace Schema

instance : Inhabited Schema := ⟨{}⟩

def typeToJson : List JsonType → List (String × Json)
  | [] => []
  | [type] => [("type", .string type.name)]
  | types => [("type", Json.strings (types.map JsonType.name))]

mutual

/-- The members of a schema's document, in the order of their names. -/
def members : Schema → List (String × Json)
  | ⟨anyOf, enum, maxLength, pattern, properties, types, title, description, default,
      format, notes, precision⟩ =>
      (match properties with
        | none => []
        | some _ => [("additionalProperties", .bool false)])
      ++ (match anyOf with
        | none => []
        | some branches => [("anyOf", .array (branchesToJson branches))])
      ++ Json.optional "default" id default
      ++ Json.optional "description" .string description
      ++ Json.optional "enum" .array enum
      ++ Json.optional "maxLength" Json.ofUInt64 maxLength
      ++ Json.optional "pattern" (fun pattern => .string pattern.source) pattern
      ++ (match properties with
        | none => []
        | some schemas => [("properties", Json.record (propertiesToJson schemas))])
      ++ Json.optional "title" .string title
      ++ typeToJson types
      ++ Json.optional "x-format" .string format
      ++ Json.nonempty "x-notes" Json.strings notes
      ++ Json.optional "x-precision" Json.ofUInt32 precision

def branchesToJson : List Schema → List Json
  | [] => []
  | schema :: rest => .object (members schema) :: branchesToJson rest

def propertiesToJson : List (String × Schema) → List (String × Json)
  | [] => []
  | (name, schema) :: rest => (name, .object (members schema)) :: propertiesToJson rest

end

def toJson (schema : Schema) : Json := .object schema.members

mutual

/-- Whether every choice, at every level, has a branch. -/
def choicesInhabited : Schema → Bool
  | ⟨anyOf, _, _, _, properties, _, _, _, _, _, _, _⟩ =>
      (match anyOf with
        | none => true
        | some branches => !branches.isEmpty && branchesInhabited branches)
      && (match properties with
        | none => true
        | some schemas => propertiesInhabited schemas)

def branchesInhabited : List Schema → Bool
  | [] => true
  | schema :: rest => choicesInhabited schema && branchesInhabited rest

def propertiesInhabited : List (String × Schema) → Bool
  | [] => true
  | (_, schema) :: rest => choicesInhabited schema && propertiesInhabited rest

end

end Schema

namespace Document

def draft : String := "http://json-schema.org/draft-07/schema#"

def toJson (document : Document) : Json :=
  .object (
    ("$schema", .string draft) :: document.root.members
      ++ Json.optional "x-non-nullable" Json.strings document.nonNullable
      ++ Json.optional "x-types"
          (fun types => Json.record (types.mapValues .string)) document.types)

end Document

end FieldRules.Draft7

namespace FieldRules

open Draft7

namespace Validator

/-! The schema that says what a validator accepts. Refinements without a keyword
of their own are kept as extensions, if those are wanted; outside ISO mode any
text or number is a date. -/

/-- Values of a restricted validator with the exceptions that are not among
them. -/
def accepted (valid allow : List Json) : List Json :=
  valid ++ allow.filter fun value => !value.isIn valid

/-- What goes into a schema besides constraints. -/
def document (extensions : Bool) (description : Option String) (notes : List String)
    (default : Option Json) (label : Option String) (schema : Schema) : Schema :=
  { schema with
    title := label
    description
    default
    notes := if extensions then notes else [] }

mutual

def schema (extensions : Bool) : Validator → Schema
  | ⟨rule, allow, valid, description, notes, default, label⟩ =>
      document extensions description notes default label <|
        match valid, allow with
        | some valid, allow => { enum := some (accepted valid allow) }
        | none, [] => ruleSchema extensions rule
        | none, allow =>
            { anyOf := some [ruleSchema extensions rule, { enum := some allow }] }

def ruleSchema (extensions : Bool) : Rule Validator → Schema
  | .any => {}
  | .array => { types := [.array] }
  | .boolean => { types := [.boolean] }
  | .number integer precision =>
      { types := [if integer then .integer else .number]
        precision := if extensions then precision else none }
  | .string max guid =>
      { types := [.string]
        maxLength := max
        pattern := if guid then some .guid else none }
  | .date iso format =>
      { types := if iso then [.string] else [.string, .number]
        pattern := if iso then some .iso8601 else none
        format := if extensions then format else none }
  | .object keys =>
      { types := [.object]
        properties := if keys.isEmpty then none else some (keySchemas extensions keys) }
  | .alternatives options => { anyOf := some (optionSchemas extensions options) }

def keySchemas (extensions : Bool) : List (String × Validator) → List (String × Schema)
  | [] => []
  | (name, validator) :: rest =>
      (name, schema extensions validator) :: keySchemas extensions rest

def optionSchemas (extensions : Bool) : List Validator → List Schema
  | [] => []
  | validator :: rest => schema extensions validator :: optionSchemas extensions rest

end

end Validator

namespace ModelRules

/-- The schema of a model's records: any of the fields and no others. -/
def schema (extensions : Bool) (rules : ModelRules) : Document where
  root :=
    { types := [.object]
      title := some rules.modelName
      properties := some (rules.validators.mapValues (Validator.schema extensions)) }
  types := if extensions then some (rules.types.mapValues TypeEntry.query) else none
  nonNullable := if extensions then some rules.nonNullable else none

end ModelRules

end FieldRules
