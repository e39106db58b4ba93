import FieldRules.Validator.Basic

namespace FieldRules

inductive TypeName
  | array
  | bigInteger
  | boolean
  | date
  | dateOnly
  | decimal
  | double
  | enumeration
  | float
  | geometry
  | integer
  | json
  | jsonb
  | real
  | string
  | text
  | uuid
  | other (name : String)
deriving DecidableEq

namespace TypeName

/-! Names are case-sensitive; every text names a type, if only an unknown one. -/

def ofText : String → TypeName
  | "array" => .array
  | "biginteger" => .bigInteger
  | "boolean" => .boolean
  | "date" => .date
  | "dateonly" => .dateOnly
  | "decimal" => .decimal
  | "double" => .double
  | "enum" => .enumeration
  | "float" => .float
  | "geometry" => .geometry
  | "integer" => .integer
  | "json" => .json
  | "jsonb" => .jsonb
  | "real" => .real
  | "string" => .string
  | "text" => .text
  | "uuid" => .uuid
  | name => .other name

def toText : TypeName → String
  | .array => "array"
  | .bigInteger => "biginteger"
  | .boolean => "boolean"
  | .date => "date"
  | .dateOnly => "dateonly"
  | .decimal => "decimal"
  | .double => "double"
  | .enumeration => "enum"
  | .float => "float"
  | .geometry => "geometry"
  | .integer => "integer"
  | .json => "json"
  | .jsonb => "jsonb"
  | .real => "real"
  | .string => "string"
  | .text => "text"
  | .uuid => "uuid"
  | .other name => name

@[simp] theorem toText_ofText (name : String) : (ofText name).toText = name := by
  unfold ofText
  split
  all_goals rfl

/-- Whether the type has a rule of its own. The others accept any sequence or
object. -/
def isRecognized : TypeName → Bool
  | .json | .jsonb | .other _ => false
  | _ => true

def isUnknown : TypeName → Bool
  | .other _ => true
  | _ => false

end TypeName

structure TypeDescription where
  name : Option String := none
  values : Option (List String) := none
  precision : Option UInt32 := none
  max : Option UInt64 := none
  format : Option String := none
deriving DecidableEq

/-- How an attribute gives its type: by name, by a description, or by asking for
it. An answer may ask again; `endless` never answers with anything else. -/
inductive TypeRef
  | named (name : String)
  | described (description : TypeDescription)
  | deferred (answer : TypeRef)
  | endless
deriving DecidableEq

structure ResolvedType where
  name : String
  values : Option (List String)
  precision : Option UInt32
  max : Option UInt64
  format : Option String
deriving DecidableEq

def ResolvedType.type (resolved : ResolvedType) : TypeName := .ofText resolved.name

inductive Unresolved
  | missing
  | diverged
deriving DecidableEq

/-- An empty name is none. -/
def TypeDescription.resolve (description : TypeDescription) :
    Except Unresolved ResolvedType :=
  match description.name with
  | none => .error .missing
  | some name =>
      if name = "" then .error .missing
      else .ok ⟨name, description.values, description.precision, description.max,
        description.format⟩

namespace TypeRef

/-- At most this many answers are asked for. -/
def greatestAnswers : Nat := 2

/-- Resolves with a number of answers left to ask for, and counts those that were
asked for. -/
def resolveWithin : (left : Nat) → TypeRef → Except Unresolved ResolvedType × Nat
  | _, .named name => (TypeDescription.resolve { name := some name }, 0)
  | _, .described description => (description.resolve, 0)
  | 0, .deferred _ => (.error .diverged, 0)
  | left + 1, .deferred answer =>
      let (outcome, asked) := resolveWithin left answer
      (outcome, asked + 1)
  | 0, .endless => (.error .diverged, 0)
  | left + 1, .endless =>
      let (outcome, asked) := resolveWithin left .endless
      (outcome, asked + 1)

def resolve (ref : TypeRef) : Except Unresolved ResolvedType :=
  (resolveWithin greatestAnswers ref).1

def answersAsked (ref : TypeRef) : Nat := (resolveWithin greatestAnswers ref).2

end TypeRef

/-- One column of a model: its type, whether it may be null, refinements and
documentation. `override` replaces the validator that the type would give.
`ownRefinements` takes nothing but the name from the type. -/
structure Attribute where
  type : Option TypeRef := none
  allowNull : Option Bool := none
  max : Option UInt64 := none
  precision : Option UInt32 := none
  format : Option String := none
  iso : Bool := false
  values : Option (List String) := none
  label : Option String := none
  description : Option String := none
  comment : Option String := none
  primaryKey : Bool := false
  autoIncrement : Bool := false
  defaultValue : Option Json := none
  override : Option Validator := none
  ownRefinements : Bool := false

namespace Attribute

def isNullable (attr : Attribute) : Bool := attr.allowNull != some false

/-- The attribute's own refinements with a type's name. -/
def describe (attr : Attribute) (name : Option String) : TypeDescription where
  name
  values := attr.values
  precision := attr.precision
  max := attr.max
  format := attr.format

/-- The type that is resolved. A deferred type is not looked into. -/
def typeRef (attr : Attribute) : Option TypeRef :=
  if attr.ownRefinements then
    match attr.type with
    | some (.deferred answer) => some (.deferred answer)
    | some .endless => some .endless
    | some (.named name) => some (.described (attr.describe (some name)))
    | some (.described description) =>
        some (.described (attr.describe description.name))
    | none => some (.described (attr.describe none))
  else attr.type

end Attribute

end FieldRules
