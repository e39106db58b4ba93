import FieldRules.Reading
import FieldRules.Validator.Basic

namespace FieldRules

/-! The document form of a validator. Absent options and empty lists are left
out; flags and the keys of an object are always there. -/

namespace Rule

def kindName (rule : Rule V) : String :=
  match rule with
  | .any => "any"
  | .array => "array"
  | .boolean => "boolean"
  | .number _ _ => "number"
  | .string _ _ => "string"
  | .date _ _ => "date"
  | .object _ => "object"
  | .alternatives _ => "alternatives"

end Rule

namespace Json

def ofUInt64 (value : UInt64) : Json := .number (.ofUInt64 value)

def ofUInt32 (value : UInt32) : Json := .number (.ofUInt32 value)

/-- A member that is there only if it has a value. -/
def optional (name : String) (encode : α → Json) : Option α → List (String × Json)
  | none => []
  | some value => [(name, encode value)]

/-- A member that is there only if its list is not empty. -/
def nonempty (name : String) (encode : List α → Json) : List α → List (String × Json)
  | [] => []
  | values => [(name, encode values)]

@[simp] theorem optional_none (name : String) (encode : α → Json) :
    optional name encode none = [] := rfl

@[simp] theorem optional_some (name : String) (encode : α → Json) (value : α) :
    optional name encode (some value) = [(name, encode value)] := rfl

@[simp] theorem nonempty_nil (name : String) (encode : List α → Json) :
    nonempty name encode [] = [] := rfl

@[simp] theorem nonempty_cons (name : String) (encode : List α → Json) (first : α)
    (others : List α) :
    nonempty name encode (first :: others) = [(name, encode (first :: others))] := rfl

end Json

namespace Validator

mutual

def toJson : Validator → Json
  | ⟨rule, allow, valid, description, notes, default, label⟩ =>
      .object (
        [("rule", .object (("kind", .string rule.kindName) :: ruleMembers rule))]
          ++ Json.nonempty "allow" .array allow
          ++ Json.optional "valid" .array valid
          ++ Json.optional "description" .string description
          ++ Json.nonempty "notes" Json.strings notes
          ++ Json.optional "default" id default
          ++ Json.optional "label" .string label)

def ruleMembers : Rule Validator → List (String × Json)
  | .any | .array | .boolean => []
  | .number integer precision =>
      ("integer", .bool integer) :: Json.optional "precision" Json.ofUInt32 precision
  | .string max guid =>
      Json.optional "max" Json.ofUInt64 max ++ [("guid", .bool guid)]
  | .date iso format => ("iso", .bool iso) :: Json.optional "format" .string format
  | .object keys => [("keys", .object (keysToJson keys))]
  | .alternatives options => [("alternatives", .array (optionsToJson options))]

def keysToJson : List (String × Validator) → List (String × Json)
  | [] => []
  | (name, validator) :: rest => (name, toJson validator) :: keysToJson rest

def optionsToJson : List Validator → List Json
  | [] => []
  | validator :: rest => toJson validator :: optionsToJson rest

end

end Validator

end FieldRules

namespace FieldRules

open Json Reading

namespace Rule

/-! A rule is a composite value whose first concern is its kind: the `kind`
member of an object wherever it stands, or the first item of a list. The other
parts are taken in only after the text of the whole rule was checked. -/

/-- The rules without their parts, in the order in which kinds are numbered. -/
def kinds : List (Rule Unit) :=
  [.any, .array, .boolean, .number false none, .string none false, .date false none,
    .object [], .alternatives []]

def kindNames : List String := kinds.map kindName

/-- In a text that was checked before, a kind may be given by its number. -/
def readKind (scope : Scope) : Outline → Except ReadError RuleKind
  | .string name =>
      match kinds.find? fun rule => rule.kindName == name with
      | some rule => .ok rule.kind
      | none => .error (.unknownVariant name kindNames)
  | .number (.whole value fits) =>
      if scope.checked ∧ 0 ≤ value then
        match kinds[value.toNat]? with
        | some rule => .ok rule.kind
        | none =>
            .error (.wrongValue (.number (.whole value fits)) "variant index 0 <= i < 8")
      else .error (Outline.refuse (.number (.whole value fits)) "variant identifier")
  | other => .error (other.refuse "variant identifier")

def unitLayout (rule : Rule Validator) : Layout (Rule Validator) where
  title := "rule without parts"
  blank := rule
  strict := false
  members := []

def numberLayout : Layout (Bool × Option UInt32) where
  title := "number rule"
  blank := (false, none)
  strict := false
  members := [
    ⟨"integer", false, fun _ o value => return (← o.readBool, value.2)⟩,
    ⟨"precision", false, fun _ o value =>
      return (value.1, ← o.readOption Outline.readUInt32)⟩]

def stringLayout : Layout (Option UInt64 × Bool) where
  title := "string rule"
  blank := (none, false)
  strict := false
  members := [
    ⟨"max", false, fun _ o value => return (← o.readOption Outline.readUInt64, value.2)⟩,
    ⟨"guid", false, fun _ o value => return (value.1, ← o.readBool)⟩]

def dateLayout : Layout (Bool × Option String) where
  title := "date rule"
  blank := (false, none)
  strict := false
  members := [
    ⟨"iso", false, fun _ o value => return (← o.readBool, value.2)⟩,
    ⟨"format", false, fun _ o value =>
      return (value.1, ← o.readOption Outline.readString)⟩]

def objectLayout (inner : Outline → Except ReadError Validator) :
    Layout (Entries Validator) where
  title := "object rule"
  blank := []
  strict := false
  members := [⟨"keys", false, fun scope o _ => o.readEntries scope fun _ => inner⟩]

def alternativesLayout (inner : Outline → Except ReadError Validator) :
    Layout (List Validator) where
  title := "struct variant Rule::Alternatives"
  blank := []
  strict := false
  members := [⟨"alternatives", true, fun scope o _ => o.readList scope fun _ => inner⟩]

/-- Reads the parts of a rule of a known kind, by members or by items. -/
def readParts (inner : Outline → Except ReadError Validator) (kind : RuleKind)
    (read : {σ : Type} → Layout σ → Except ReadError σ) : Except ReadError (Rule Validator) :=
  match kind with
  | .any => read (unitLayout .any)
  | .array => read (unitLayout .array)
  | .boolean => read (unitLayout .boolean)
  | .number => (read numberLayout).map fun (integer, precision) => .number integer precision
  | .string => (read stringLayout).map fun (max, guid) => .string max guid
  | .date => (read dateLayout).map fun (iso, format) => .date iso format
  | .object => (read (objectLayout inner)).map .object
  | .alternatives => (read (alternativesLayout inner)).map .alternatives

/-- Looks for the kind and checks the text of everything else, in order. -/
def findKind (scope : Scope) (found : Option RuleKind) :
    List (MemberName × Outline) → Except ReadError (Option RuleKind)
  | [] => .ok found
  | (.flawed flaw, _) :: _ => .error (.fault flaw.read)
  | (.known name, outline) :: rest =>
      if name = "kind" then
        match found with
        | some _ => .error (.repeatedMember "kind")
        | none => do findKind scope (some (← readKind scope outline)) rest
      else do
        outline.check scope
        findKind scope found rest

def isKind (member : MemberName × Outline) : Bool :=
  match member.1 with
  | .known name => name == "kind"
  | .flawed _ => false

def read (inner : Outline → Except ReadError Validator) (scope : Scope) :
    Outline → Except ReadError (Rule Validator)
  | .object members =>
      Outline.enter scope fun scope => do
        match ← findKind scope none members with
        | none => .error (.missingMember "kind")
        | some kind =>
            let parts := members.filter fun member => !isKind member
            readParts inner kind fun layout =>
              layout.readObject { scope with checked := true } parts
  | .list [] =>
      Outline.enter scope fun _ => .error (.missingMember "kind")
  | .list (first :: rest) =>
      Outline.enter scope fun scope => do
        let kind ← readKind scope first
        rest.forM fun item => item.check scope
        readParts inner kind fun layout =>
          layout.readList { scope with checked := true } rest
  | other => .error (other.refuse "internally tagged enum Rule")

end Rule

namespace Validator

/-- The members of a validator; `inner` reads the validators inside its rule. -/
def layout (inner : Outline → Except ReadError Validator) : Layout Validator where
  title := "struct ValidatorSpec"
  blank := Validator.any
  strict := false
  members := [
    ⟨"rule", true, fun scope o v => return { v with rule := ← Rule.read inner scope o }⟩,
    ⟨"allow", false, fun scope o v => return { v with allow := ← o.readValues scope }⟩,
    ⟨"valid", false, fun scope o v =>
      return { v with valid := ← o.readOption fun o => o.readValues scope }⟩,
    ⟨"description", false, fun _ o v =>
      return { v with description := ← o.readOption Outline.readString }⟩,
    ⟨"notes", false, fun scope o v => return { v with notes := ← o.readStrings scope }⟩,
    ⟨"default", false, fun scope o v =>
      return { v with default := ← o.readOption fun o => o.readValue scope }⟩,
    ⟨"label", false, fun _ o v =>
      return { v with label := ← o.readOption Outline.readString }⟩]

/-- A validator inside a rule lies three levels deeper: in the validator, its rule
and the rule's list or object. -/
def readWithin : (room : Nat) → (checked : Bool) → Outline → Except ReadError Validator
  | room + 3, checked, outline =>
      (layout (readWithin room true)).read ⟨room + 3, checked⟩ outline
  | room, checked, outline =>
      (layout fun _ => .error (.fault .tooDeep)).read ⟨room, checked⟩ outline

def read (scope : Scope) (outline : Outline) : Except ReadError Validator :=
  readWithin scope.room scope.checked outline

def parse : String → Except ReadError Validator := Reading.document read

end Validator

end FieldRules
