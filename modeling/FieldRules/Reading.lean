import FieldRules.Json.Outline

namespace FieldRules

open Json

/-- A value of the wrong kind, as far as an error shows it. -/
inductive ReadError.Found
  | null
  | bool (value : Bool)
  | number (value : Number)
  | string (value : String)
  | list
  | object
deriving DecidableEq

/-- Why a document is refused: its text is faulty, or a value in it is not what
was asked for. -/
inductive ReadError
  | fault (cause : Fault)
  | wrongKind (found : ReadError.Found) (expected : String)
  | wrongValue (found : ReadError.Found) (expected : String)
  | wrongLength (length : Nat) (expected : String)
  | unknownMember (name : String) (expected : List String)
  | repeatedMember (name : String)
  | missingMember (name : String)
  | unknownVariant (name : String) (expected : List String)
  | noVariant (family : String)
deriving DecidableEq

/-- Whether a text is faulty, ends too early or has the wrong content. -/
inductive ReadError.Category
  | text
  | ended
  | content
deriving DecidableEq

namespace ReadError

def category : ReadError → Category
  | .fault cause => if cause.isEnd then .ended else .text
  | _ => .content

def Found.describe : Found → String
  | .null => "null"
  | .bool true => "boolean `true`"
  | .bool false => "boolean `false`"
  | .number (.whole value _) => "integer `" ++ toString value ++ "`"
  | .number (.double value) => "floating point `" ++ value.write Number.style ++ "`"
  | .string value => "string " ++ Text.quoted value
  | .list => "sequence"
  | .object => "map"

/-- A choice of names: two with "or", more as a list. -/
def oneOf (names : List String) : String :=
  match names.map fun name => "`" ++ name ++ "`" with
  | [] => "nothing"
  | [only] => only
  | [first, second] => first ++ " or " ++ second
  | many => "one of " ++ ", ".intercalate many

def message : ReadError → String
  | .fault cause => cause.message
  | .wrongKind found expected => "invalid type: " ++ found.describe ++ ", expected " ++ expected
  | .wrongValue found expected =>
      "invalid value: " ++ found.describe ++ ", expected " ++ expected
  | .wrongLength length expected =>
      "invalid length " ++ toString length ++ ", expected " ++ expected
  | .unknownMember name expected =>
      "unknown field `" ++ name ++ "`, "
        ++ (if expected.isEmpty then "there are no fields" else "expected " ++ oneOf expected)
  | .repeatedMember name => "duplicate field `" ++ name ++ "`"
  | .missingMember name => "missing field `" ++ name ++ "`"
  | .unknownVariant name expected =>
      "unknown variant `" ++ name ++ "`, expected " ++ oneOf expected
  | .noVariant family => "data did not match any variant of untagged enum " ++ family

end ReadError

namespace Reading

/-- Containers nested more deeply than this are refused. -/
def greatestDepth : Nat := 127

/-- Where a value is read: how many levels of containers may still be opened, and
whether the whole text of the value was checked before. -/
structure Scope where
  room : Nat
  checked : Bool
deriving DecidableEq

def Scope.outermost : Scope := ⟨greatestDepth, false⟩

end Reading

namespace Json.Outline

open Reading

/-! Readers go through a value in the order of its text, so the first problem
wins, whether the text is faulty or a value is not what is asked for. -/

def refuse (outline : Outline) (expected : String) : ReadError :=
  match outline with
  | .flawed flaw => .fault flaw.read
  | .null => .wrongKind .null expected
  | .bool value => .wrongKind (.bool value) expected
  | .number value => .wrongKind (.number value) expected
  | .string value => .wrongKind (.string value) expected
  | .list _ => .wrongKind .list expected
  | .object _ => .wrongKind .object expected

def readBool : Outline → Except ReadError Bool
  | .bool value => .ok value
  | other => .error (other.refuse "a boolean")

def readString : Outline → Except ReadError String
  | .string value => .ok value
  | other => .error (other.refuse "a string")

/-- A whole number below `bound`; a double is never taken for one. -/
def readNatBelow (bound : Nat) (expected : String) : Outline → Except ReadError Nat
  | .number (.whole value fits) =>
      if 0 ≤ value ∧ value < bound then .ok value.toNat
      else .error (.wrongValue (.number (.whole value fits)) expected)
  | other => .error (other.refuse expected)

def readUInt32 (outline : Outline) : Except ReadError UInt32 :=
  (outline.readNatBelow UInt32.size "u32").map UInt32.ofNat

def readUInt64 (outline : Outline) : Except ReadError UInt64 :=
  (outline.readNatBelow UInt64.size "usize").map UInt64.ofNat

/-- A member that may be absent may also be null. -/
def readOption (reader : Outline → Except ReadError α) :
    Outline → Except ReadError (Option α)
  | .null => .ok none
  | other => (reader other).map some

/-- Enters a container, which takes one level. -/
def enter (scope : Scope) (reader : Scope → Except ReadError α) :
    Except ReadError α :=
  match scope.room with
  | 0 => .error (.fault .tooDeep)
  | room + 1 => reader { scope with room }

def readList (scope : Scope) (reader : Scope → Outline → Except ReadError α) :
    Outline → Except ReadError (List α)
  | .list items => enter scope fun scope => items.mapM (reader scope)
  | other => .error (other.refuse "a sequence")

def readName : MemberName → Except ReadError String
  | .known name => .ok name
  | .flawed flaw => .error (.fault flaw.read)

/-- A repeated name keeps its first place and its last value. -/
def readEntries (scope : Scope) (reader : Scope → Outline → Except ReadError α) :
    Outline → Except ReadError (Entries α)
  | .object members =>
      enter scope fun scope => do
        let pairs ← members.mapM fun member => do
          let name ← readName member.1
          return (name, ← reader scope member.2)
        return Entries.ofList pairs
  | other => .error (other.refuse "a map")

def check (scope : Scope) (outline : Outline) : Except ReadError Unit :=
  match outline.fault? scope.room with
  | none => .ok ()
  | some cause => .error (.fault cause)

/-- A value of any form, its members sorted. -/
def readValue (scope : Scope) (outline : Outline) : Except ReadError Json := do
  outline.check scope
  return outline.toJson.sorted

/-- A value of any form, its members as they stand. -/
def readOrdered (scope : Scope) (outline : Outline) : Except ReadError Json := do
  outline.check scope
  return outline.toJson

def readStrings (scope : Scope) : Outline → Except ReadError (List String) :=
  readList scope fun _ => readString

def readValues (scope : Scope) : Outline → Except ReadError (List Json) :=
  readList scope readValue

end Json.Outline

/-- Reads a document: one value, with nothing but blanks around it. -/
def Reading.document (reader : Reading.Scope → Outline → Except ReadError α)
    (text : String) : Except ReadError α := do
  let (outline, continued) := Outline.ofText text
  let value ← reader .outermost outline
  if continued then .error (.fault .trailingCharacters) else return value

def Json.parseOrdered : String → Except ReadError Json :=
  Reading.document Outline.readOrdered

def Json.parse : String → Except ReadError Json :=
  Reading.document Outline.readValue

end FieldRules

namespace FieldRules.Reading

open Json

/-- One member of a composite value: how it is read into the value so far. -/
structure Member (σ : Type) where
  name : String
  required : Bool
  read : Scope → Outline → σ → Except ReadError σ

/-- How a composite value is written: as an object of named members, or as a list
of the same members in the order of the layout. -/
structure Layout (σ : Type) where
  title : String
  members : List (Member σ)
  blank : σ
  strict : Bool

namespace Layout

def count (n : Nat) : String :=
  if n = 1 then "1 element" else toString n ++ " elements"

def names (layout : Layout σ) : List String := layout.members.map Member.name

def find? (layout : Layout σ) (name : String) : Option (Member σ) :=
  layout.members.find? fun member => member.name == name

/-- Members are read in the order of the text. A name that the layout does not
have is an error if the layout is strict and is passed over otherwise. -/
def readMembers (layout : Layout σ) (scope : Scope) (seen : List String) (value : σ) :
    List (MemberName × Outline) → Except ReadError (List String × σ)
  | [] => .ok (seen, value)
  | (.flawed flaw, _) :: _ => .error (.fault flaw.read)
  | (.known name, outline) :: rest =>
      match layout.find? name with
      | none =>
          if layout.strict then .error (.unknownMember name layout.names)
          else match outline.skipFault? with
            | some cause => .error (.fault cause)
            | none => layout.readMembers scope seen value rest
      | some member => do
          if seen.contains name then .error (.repeatedMember name)
          let value ← member.read scope outline value
          layout.readMembers scope (name :: seen) value rest

def readObject (layout : Layout σ) (scope : Scope)
    (members : List (MemberName × Outline)) : Except ReadError σ := do
  let (seen, value) ← layout.readMembers scope [] layout.blank members
  match layout.members.find? fun member => member.required && !seen.contains member.name with
  | some member => .error (.missingMember member.name)
  | none => return value

/-- What is wrong with items after the last member: in a text that is still being
read the item itself is not looked at. -/
def surplusError (layout : Layout σ) (scope : Scope) (surplus : List Outline) : ReadError :=
  if scope.checked then
    .wrongLength (layout.members.length + surplus.length)
      (count layout.members.length ++ " in sequence")
  else match surplus with
    | .flawed ⟨.endInList, _⟩ :: _ => .fault .endInList
    | .flawed ⟨.trailingComma, _⟩ :: _ => .fault .trailingComma
    | _ => .fault .trailingCharacters

/-- Items are members in the order of the layout; those at the end may be left
out if they are not required. -/
def readItems (layout : Layout σ) (scope : Scope) (place : Nat) (value : σ) :
    List (Member σ) → List Outline → Except ReadError σ
  | [], [] => .ok value
  | [], surplus => .error (layout.surplusError scope surplus)
  | member :: members, [] =>
      if member.required then
        .error (.wrongLength place (layout.title ++ " with " ++ count layout.members.length))
      else layout.readItems scope (place + 1) value members []
  | member :: members, item :: items => do
      let value ← member.read scope item value
      layout.readItems scope (place + 1) value members items

def readList (layout : Layout σ) (scope : Scope) (items : List Outline) : Except ReadError σ :=
  layout.readItems scope 0 layout.blank layout.members items

def read (layout : Layout σ) (scope : Scope) : Outline → Except ReadError σ
  | .object members => Outline.enter scope fun scope => layout.readObject scope members
  | .list items => Outline.enter scope fun scope => layout.readList scope items
  | other => .error (other.refuse layout.title)

end Layout

end FieldRules.Reading
