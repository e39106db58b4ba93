import FieldRules.Json.Basic

namespace FieldRules

/-- What a value has to be, before exceptions. `V` is the type of the validators
inside. -/
inductive Rule (V : Type)
  | any
  | array
  | boolean
  | number (integer : Bool) (precision : Option UInt32)
  | string (max : Option UInt64) (guid : Bool)
  | date (iso : Bool) (format : Option String)
  | object (keys : List (String × V))
  | alternatives (options : List V)

inductive RuleKind
  | any
  | array
  | boolean
  | number
  | string
  | date
  | object
  | alternatives
deriving DecidableEq

def Rule.kind : Rule V → RuleKind
  | .any => .any
  | .array => .array
  | .boolean => .boolean
  | .number _ _ => .number
  | .string _ _ => .string
  | .date _ _ => .date
  | .object _ => .object
  | .alternatives _ => .alternatives

/-- The validator of one field. Values in `allow` are accepted besides those that
follow the rule; `valid`, if given, replaces the rule by a set of values. The rest
is documentation. -/
structure Validator where
  rule : Rule Validator
  allow : List Json := []
  valid : Option (List Json) := none
  description : Option String := none
  notes : List String := []
  default : Option Json := none
  label : Option String := none

namespace Validator

instance : Inhabited Validator := ⟨⟨.any, [], none, none, [], none, none⟩⟩

def kind (validator : Validator) : RuleKind := validator.rule.kind

/-! The validator of each kind without refinements. -/

def any : Validator := { rule := .any }

def array : Validator := { rule := .array }

def boolean : Validator := { rule := .boolean }

def number : Validator := { rule := .number false none }

def string : Validator := { rule := .string none false }

def date : Validator := { rule := .date false none }

def object : Validator := { rule := .object [] }

def alternatives (options : List Validator) : Validator := { rule := .alternatives options }

/-! A refinement of another kind's rule leaves a validator as it is. -/

def refine (validator : Validator) (f : Rule Validator → Rule Validator) : Validator :=
  { validator with rule := f validator.rule }

def integer (validator : Validator) : Validator :=
  validator.refine fun
    | .number _ precision => .number true precision
    | rule => rule

def precision (validator : Validator) (digits : UInt32) : Validator :=
  validator.refine fun
    | .number integer _ => .number integer (some digits)
    | rule => rule

def max (validator : Validator) (length : UInt64) : Validator :=
  validator.refine fun
    | .string _ guid => .string (some length) guid
    | rule => rule

def guid (validator : Validator) : Validator :=
  validator.refine fun
    | .string max _ => .string max true
    | rule => rule

def iso (validator : Validator) : Validator :=
  validator.refine fun
    | .date _ format => .date true format
    | rule => rule

def format (validator : Validator) (pattern : String) : Validator :=
  validator.refine fun
    | .date iso _ => .date iso (some pattern)
    | rule => rule

def keys (validator : Validator) (members : List (String × Validator)) : Validator :=
  validator.refine fun
    | .object keys => .object (Entries.putAll keys members)
    | rule => rule

/-! Value sets have no two values that are the same. -/

def allowing (validator : Validator) (values : List Json) : Validator :=
  { validator with allow := Json.addNew validator.allow values }

def restrictedTo (validator : Validator) (values : List Json) : Validator :=
  { validator with valid := some (Json.addNew (validator.valid.getD []) values) }

def described (validator : Validator) (text : String) : Validator :=
  { validator with description := some text }

def noted (validator : Validator) (notes : List String) : Validator :=
  { validator with notes := validator.notes ++ notes }

def defaulting (validator : Validator) (value : Json) : Validator :=
  { validator with default := some value }

def labelled (validator : Validator) (text : String) : Validator :=
  { validator with label := some text }

def permits (validator : Validator) (value : Json) : Bool :=
  value.isIn validator.allow || value.isIn (validator.valid.getD [])

/-! Two validators are the same if their parts are; the order of an object's keys
does not count. -/

def sameValues (a b : List Json) : Bool := Json.agreeItems Json.Number.same a b

def sameOption (sameValue : α → α → Bool) : Option α → Option α → Bool
  | none, none => true
  | some a, some b => sameValue a b
  | _, _ => false

mutual

def same (a b : Validator) : Bool :=
  match a with
  | ⟨rule, allow, valid, description, notes, default, label⟩ =>
      sameRule rule b.rule && sameValues allow b.allow
        && sameOption sameValues valid b.valid && description == b.description
        && notes == b.notes && sameOption Json.same default b.default && label == b.label

def sameRule (a b : Rule Validator) : Bool :=
  match a with
  | .any => b.kind == .any
  | .array => b.kind == .array
  | .boolean => b.kind == .boolean
  | .number integer precision =>
      match b with
      | .number integerB precisionB => integer == integerB && precision == precisionB
      | _ => false
  | .string max guid =>
      match b with
      | .string maxB guidB => max == maxB && guid == guidB
      | _ => false
  | .date iso format =>
      match b with
      | .date isoB formatB => iso == isoB && format == formatB
      | _ => false
  | .object keys =>
      match b with
      | .object keysB => keys.length == keysB.length && sameKeys keys keysB
      | _ => false
  | .alternatives options =>
      match b with
      | .alternatives optionsB => sameOptions options optionsB
      | _ => false

def sameKeys (a : List (String × Validator)) (b : Entries Validator) : Bool :=
  match a with
  | [] => true
  | (name, validator) :: rest =>
      (match b.get? name with
        | some validatorB => same validator validatorB
        | none => false)
        && sameKeys rest b

def sameOptions (a b : List Validator) : Bool :=
  match a, b with
  | [], [] => true
  | validatorA :: restA, validatorB :: restB =>
      same validatorA validatorB && sameOptions restA restB
  | _, _ => false

end

end Validator

end FieldRules
