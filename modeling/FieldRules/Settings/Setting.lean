import FieldRules.Json.Basic
import FieldRules.Text

namespace FieldRules

/-- A number of the 64-bit binary format, those that are not finite included. -/
inductive Real64
  | finite (value : Double)
  | infinite (negative : Bool)
  | undefined
deriving DecidableEq

namespace Real64

def isZero : Real64 → Bool
  | .finite value => value.isZero
  | _ => false

/-- Doubles are written without an exponent and without a needless fraction. -/
def style : Decimal.Style where
  positional _ := true
  pointZero := false

def write : Real64 → String
  | .finite value => value.write style
  | .infinite negative => if negative then "-inf" else "inf"
  | .undefined => "NaN"

def digitsValue (digits : List Char) : Nat :=
  digits.foldl (fun n c => n * 10 + (c.toNat - '0'.toNat)) 0

def ofNumeral (negative : Bool) (whole fraction : List Char) (exponent : Int) : Real64 :=
  match Double.ofNumeral? negative (digitsValue (whole ++ fraction))
      (exponent - fraction.length) with
  | some value => .finite value
  | none => .infinite negative

end Real64

/-! Numerals of settings that are given as plain texts. -/

namespace Numeral

def sign : List Char → Bool × List Char
  | '+' :: rest => (false, rest)
  | '-' :: rest => (true, rest)
  | rest => (false, rest)

def isDigits (text : List Char) : Bool := !text.isEmpty && text.all Char.isDigit

/-- A whole number that fits 64 bits with a sign. -/
def integer? (text : String) : Option Int :=
  let (negative, digits) := sign text.toList
  if isDigits digits then
    let size : Int := Real64.digitsValue digits
    let value := if negative then -size else size
    if -0x8000000000000000 ≤ value ∧ value < 0x8000000000000000 then some value else none
  else none

/-- The exponent of a numeral, given with its mark; none at all counts as zero. -/
def exponent? : List Char → Option Int
  | [] => some 0
  | mark :: rest =>
      if mark = 'e' ∨ mark = 'E' then
        let (negative, digits) := sign rest
        if isDigits digits then
          let size : Int := Real64.digitsValue digits
          some (if negative then -size else size)
        else none
      else none

/-- Digits may be missing on one side of the point, but not on both. -/
def real? (text : String) : Option Real64 :=
  let (negative, chars) := sign text.toList
  match String.ofList (chars.map Char.toLower) with
  | "inf" | "infinity" => some (.infinite negative)
  | "nan" => some .undefined
  | _ =>
      let whole := chars.takeWhile Char.isDigit
      let rest := chars.drop whole.length
      let (fraction, rest) := match rest with
        | '.' :: rest =>
            let fraction := rest.takeWhile Char.isDigit
            (fraction, rest.drop fraction.length)
        | rest => ([], rest)
      if whole.isEmpty && fraction.isEmpty then none
      else (exponent? rest).map (Real64.ofNumeral negative whole fraction)

end Numeral

inductive Setting
  | nothing
  | bool (value : Bool)
  | integer (value : Int)
  | real (value : Real64)
  | text (value : String)
  | list (items : List Setting)
  | table (entries : List (String × Setting))

namespace Setting

instance : Inhabited Setting := ⟨.nothing⟩

/-! Layers are merged table by table; anything else replaces what was there. -/

def entries : Setting → Entries Setting
  | .table entries => entries
  | _ => []

def items : Setting → List Setting
  | .list items => items
  | _ => []

mutual

def merge (entries : Entries Setting) (name : String) : Setting → Entries Setting
  | .table incoming =>
      entries.put name (mergeAll ((entries.get? name).getD (.table [])) incoming)
  | value => entries.put name value

/-- Merges entries into a value, which becomes a table with the first of them. -/
def mergeAll (target : Setting) : List (String × Setting) → Setting
  | [] => target
  | (name, value) :: rest => mergeAll (.table (merge target.entries name value)) rest

end

mutual

/-- Names count without regard to case. -/
def lowered : Setting → Setting
  | .list items => .list (loweredItems items)
  | .table entries => .table (loweredEntries entries)
  | value => value

def loweredItems : List Setting → List Setting
  | [] => []
  | item :: rest => lowered item :: loweredItems rest

def loweredEntries : List (String × Setting) → List (String × Setting)
  | [] => []
  | (name, value) :: rest => (name.toLower, lowered value) :: loweredEntries rest

end

/-! A setting is taken for what is asked for where that is possible. -/

def toFlag? : Setting → Option Bool
  | .bool value => some value
  | .integer value => some (value != 0)
  | .real value => some (!value.isZero)
  | .text value =>
      if ["1", "true", "on", "yes"].contains value.toLower then some true
      else if ["0", "false", "off", "no"].contains value.toLower then some false
      else none
  | _ => none

def toText? : Setting → Option String
  | .text value => some value
  | .bool value => some (if value then "true" else "false")
  | .integer value => some (toString value)
  | .real value => some value.write
  | _ => none

/-- One of several words, given as a text or as the only name of a table, without
regard to case. -/
def toWord? (words : List String) (setting : Setting) : Option String :=
  let find (given : String) := words.find? fun word => word == given.toLower
  match setting with
  | .text given => find given
  | .table [(given, _)] => find given
  | _ => none

/-- The value of a part of a section, which is a table of parts or a list of them
in order; nothing if it is neither. -/
def part? (section? : Setting) (place : Nat) (name : String) : Option (Option Setting) :=
  match section? with
  | .table entries => some (Entries.get? entries name)
  | .list items => some items[place]?
  | _ => none

/-- A whole number beyond the signed ones becomes a double. -/
def ofNumber : Json.Number → Setting
  | .whole value _ =>
      if value < 0x8000000000000000 then .integer value
      else .real (match Double.ofRatio? false value.toNat 1 with
        | some value => .finite value
        | none => .infinite false)
  | .double value => .real (.finite value)

mutual

def ofJson : Json → Setting
  | .null => .nothing
  | .bool value => .bool value
  | .number value => ofNumber value
  | .string value => .text value
  | .array items => .list (ofItems items)
  | .object members => .table (ofMembers members)

def ofItems : List Json → List Setting
  | [] => []
  | item :: rest => ofJson item :: ofItems rest

def ofMembers : List (String × Json) → List (String × Setting)
  | [] => []
  | (name, value) :: rest => (name, ofJson value) :: ofMembers rest

end

end Setting

end FieldRules

namespace FieldRules

open Text

namespace Setting

/-- One step from a value to a part of it. Items are counted from the start, or
from the end if the count is negative. -/
inductive Step
  | name (name : String)
  | item (index : Int)
deriving DecidableEq

/-! A key of a layer is a place: a name, and then names after points and indices
in brackets. -/

def isNameChar (c : Char) : Bool := c.isAlphanum || c == ' ' || c == '_' || c == '-'

def skipBlanks (text : List Char) : List Char :=
  text.dropWhile fun c => c == ' ' || c == '\t'

def nameStep : Scan Step := fun text =>
  match text.takeWhile isNameChar with
  | [] => none
  | name => some (.name (String.ofList name), text.drop name.length)

/-- A whole number that fits 64 bits with a sign, up to a closing bracket. -/
def itemStep : Scan Step := fun text => do
  let (negative, rest) := match skipBlanks text with
    | '-' :: rest => (true, rest)
    | rest => (false, rest)
  let digits := rest.takeWhile Char.isDigit
  let index ← Numeral.integer? (String.ofList (if negative then '-' :: digits else digits))
  match skipBlanks (rest.drop digits.length) with
  | ']' :: rest => some (.item index, rest)
  | _ => none

def moreSteps? : (fuel : Nat) → List Char → Option (List Step)
  | _, [] => some []
  | 0, _ => none
  | fuel + 1, '.' :: rest =>
      (nameStep rest).bind fun (step, rest) => (moreSteps? fuel rest).map (step :: ·)
  | fuel + 1, '[' :: rest =>
      (itemStep rest).bind fun (step, rest) => (moreSteps? fuel rest).map (step :: ·)
  | _, _ => none

/-- The steps of a place; a key that is not written like one is a single name. -/
def stepsOf (key : String) : List Step :=
  let steps? := (nameStep key.toList).bind fun (step, rest) =>
    (moreSteps? rest.length rest).map (step :: ·)
  steps?.getD [.name key]

def longestList : Nat := 0x1000000

/-- The position of an item that may be beyond the end of a list. -/
def position? (length : Nat) (index : Int) : Option Nat :=
  if 0 ≤ index then
    if index < longestList then some index.toNat else none
  else if -index ≤ length then some (length - index.natAbs)
  else none

/-- Changes one item of a list, which is made long enough for it. -/
def changeItem (items : List Setting) (index : Int) (change : Setting → Setting) :
    List Setting :=
  match position? items.length index with
  | none => items
  | some position =>
      (items ++ List.replicate (position + 1 - items.length) Setting.nothing).modify
        position change

/-- Puts a value at a place. What is not a table or a list where one is needed
becomes one, and the value is merged into the table that it is put in. -/
def putAt (value : Setting) : List Step → Setting → Setting
  | [], _ => value
  | [.name name], whole => .table (merge whole.entries name value)
  | .name name :: rest, whole =>
      .table (whole.entries.put name
        (putAt value rest ((whole.entries.get? name).getD .nothing)))
  | .item index :: rest, whole => .list (changeItem whole.items index (putAt value rest))

def layOver (below : Entries Setting) (layer : List (String × Setting)) : Entries Setting :=
  (loweredEntries layer).foldl
    (fun entries entry => (putAt entry.2 (stepsOf entry.1) (.table entries)).entries) below

end Setting

end FieldRules
