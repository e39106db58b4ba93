import FieldRules.Draft7.Schema
import FieldRules.Url

namespace FieldRules.Draft7

inductive Cause
  | unexpectedMembers (names : List String)
  | noBranch (value : Json)
  | notListed (value : Json) (accepted : List Json)
  | tooLong (value : Json) (limit : UInt64)
  | noMatch (value : Json) (pattern : Pattern)
  | wrongType (value : Json) (types : List JsonType)

/-- A refusal with the names that lead from the record to the refused value. -/
structure Issue where
  cause : Cause
  path : List String

/-! A schema refuses a value by a list of issues, and accepts it if there are
none. Keywords that do not apply to a kind of value accept all of that kind. -/

namespace Schema

def enumIssues (accepted : List Json) (value : Json) (path : List String) : List Issue :=
  if accepted.any value.equal then [] else [⟨.notListed value accepted, path⟩]

/-- Lengths count characters. -/
def lengthIssues (limit : UInt64) (value : Json) (path : List String) : List Issue :=
  match value with
  | .string text =>
      if text.length ≤ limit.toNat then [] else [⟨.tooLong value limit, path⟩]
  | _ => []

def patternIssues (pattern : Pattern) (value : Json) (path : List String) : List Issue :=
  match value with
  | .string text => if pattern.accepts text then [] else [⟨.noMatch value pattern, path⟩]
  | _ => []

def typeIssues (types : List JsonType) (value : Json) (path : List String) : List Issue :=
  if types.isEmpty || types.any (·.accepts value) then [] else [⟨.wrongType value types, path⟩]

def unexpected (known : List String) (value : Json) : List String :=
  match value with
  | .object members => (members.map Prod.fst).filter fun name => !known.contains name
  | _ => []

def unexpectedIssues (known : List String) (value : Json) (path : List String) :
    List Issue :=
  match unexpected known value with
  | [] => []
  | names => [⟨.unexpectedMembers names, path⟩]

/-- What the members of a value are refused for, in the order of the value. -/
def memberIssues (issuesOf : String → Json → Option (List Issue)) (value : Json) :
    List Issue :=
  match value with
  | .object members => members.flatMap fun member => (issuesOf member.1 member.2).getD []
  | _ => []

def perhaps (issues : α → List Issue) : Option α → List Issue
  | none => []
  | some constraint => issues constraint

@[simp] theorem perhaps_none (issues : α → List Issue) : perhaps issues none = [] := rfl

@[simp] theorem perhaps_some (issues : α → List Issue) (constraint : α) :
    perhaps issues (some constraint) = issues constraint := rfl

mutual

/-- What a value is refused for, keyword by keyword in the order of their
names; members before the names that are not expected. -/
def issues : Schema → Json → List String → List Issue
  | ⟨anyOf, enum, maxLength, pattern, properties, types, _, _, _, _, _, _⟩, value, path =>
      (match properties with
        | none => []
        | some schemas =>
            memberIssues (propertyIssues? schemas path) value
              ++ unexpectedIssues (schemas.map Prod.fst) value path)
      ++ (match anyOf with
        | none => []
        | some branches =>
            if anyAccepts branches value then [] else [⟨.noBranch value, path⟩])
      ++ perhaps (enumIssues · value path) enum
      ++ perhaps (lengthIssues · value path) maxLength
      ++ perhaps (patternIssues · value path) pattern
      ++ typeIssues types value path

def propertyIssues? : List (String × Schema) → List String → String → Json →
    Option (List Issue)
  | [], _, _, _ => none
  | (key, schema) :: rest, path, name, value =>
      if name = key then some (issues schema value (path ++ [name]))
      else propertyIssues? rest path name value

def anyAccepts : List Schema → Json → Bool
  | [], _ => false
  | schema :: rest, value => (issues schema value []).isEmpty || anyAccepts rest value

end

def accepts (schema : Schema) (value : Json) : Bool := (schema.issues value []).isEmpty

end Schema

namespace Cause

private def wasUnexpected : List String → String
  | [name] => "'" ++ name ++ "' was unexpected"
  | names => ", ".intercalate (names.map fun name => "'" ++ name ++ "'") ++ " were unexpected"

/-- Types are listed in the order of their names. -/
private def describeTypes (types : List JsonType) : String :=
  match JsonType.all.filter types.contains with
  | [type] => "type " ++ Json.quote type.name
  | types => "types " ++ ", ".intercalate (types.map fun type => Json.quote type.name)

def message : Cause → String
  | .unexpectedMembers names =>
      "Additional properties are not allowed (" ++ wasUnexpected names ++ ")"
  | .noBranch value =>
      value.compact ++ " is not valid under any of the schemas listed in the 'anyOf' keyword"
  | .notListed value accepted =>
      value.compact ++ " is not one of " ++ (Json.array accepted).compact
  | .tooLong value limit =>
      value.compact ++ " is longer than " ++ toString limit.toNat
        ++ (if limit = 1 then " character" else " characters")
  | .noMatch value pattern =>
      value.compact ++ " does not match \"" ++ pattern.source ++ "\""
  | .wrongType value types => value.compact ++ " is not of " ++ describeTypes types

end Cause

namespace Issue

def step (name : String) : String :=
  "/" ++ String.ofList (name.toList.flatMap fun c =>
    if c = '~' then ['~', '0'] else if c = '/' then ['~', '1'] else [c])

def pointer (issue : Issue) : String := String.join (issue.path.map step)

end Issue

end FieldRules.Draft7

namespace FieldRules.Draft7

open Url

/-! Every object in a schema's document may have an identifier, which is a reference
from that of the object around it. What is listed as a value is not looked at. -/

/-- The base of documents that have no identifier. -/
def documentBase : Base := ⟨"json-schema", false⟩

def innerBase (base : Base) (members : List (String × Json)) : Except Fault Base :=
  match Entries.get? members "$id" with
  | some (.string reference) => base.resolve reference
  | _ => .ok base

def holdsValues (name : String) : Bool := name == "enum" || name == "const"

mutual

def identifierFault? (base : Base) : Json → Option Fault
  | .object members =>
      match innerBase base members with
      | .ok base => membersFault? base members
      | .error fault => some fault
  | .array items => itemsFault? base items
  | _ => none

def membersFault? (base : Base) : List (String × Json) → Option Fault
  | [] => none
  | (name, value) :: rest =>
      (if holdsValues name then none else identifierFault? base value)
        <|> membersFault? base rest

def itemsFault? (base : Base) : List Json → Option Fault
  | [] => none
  | item :: rest => identifierFault? base item <|> itemsFault? base rest

end

end FieldRules.Draft7
