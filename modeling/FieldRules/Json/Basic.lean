import FieldRules.Decimal
import FieldRules.Entries

namespace FieldRules.Json

/-- A number of a document: a whole number that fits 64 bits, signed if negative
and unsigned otherwise, or a double. -/
inductive Number
  | whole (value : Int) (fits : -0x8000000000000000 ≤ value ∧ value < 0x10000000000000000)
  | double (value : Double)
deriving DecidableEq

namespace Number

def ofWhole? (value : Int) : Option Number :=
  if fits : -0x8000000000000000 ≤ value ∧ value < 0x10000000000000000 then
    some (.whole value fits)
  else none

def ofUInt64 (value : UInt64) : Number :=
  .whole value.toNat (by have := value.toNat_lt; omega)

def ofUInt32 (value : UInt32) : Number :=
  .whole value.toNat (by have := value.toNat_lt; omega)

/-- The same number written the same way: a whole number is never the same as a
double. -/
def same : Number → Number → Bool
  | .whole a _, .whole b _ => a == b
  | .double a, .double b => a.same b
  | _, _ => false

/-- The value in the units in which doubles are measured. -/
def units : Number → Int
  | .whole value _ => value * Double.one
  | .double value => value.units

/-- The same value, however it is written. -/
def equal (a b : Number) : Bool := a.units == b.units

def isZero : Number → Bool
  | .whole value _ => value == 0
  | .double value => value.isZero

/-- A double without a fractional part counts as whole. -/
def isWhole : Number → Bool
  | .whole _ _ => true
  | .double value => value.isWhole

/-- Doubles show a fractional digit, and have an exponent when the point would
stand more than sixteen digits to the right or more than four zeros to the left. -/
def style : Decimal.Style where
  positional point := -5 < point && point ≤ 16
  pointZero := true

def write : Number → String
  | .whole value _ => toString value
  | .double value => value.write style

/-- A numeral split at its point and its exponent mark. -/
structure Numeral where
  negative : Bool
  whole : List Char
  fraction : Option (List Char)
  exponent : Option Int

private def digit (c : Char) : Nat := c.toNat - '0'.toNat

/-- Appends digits while the result fits 64 bits, and counts those left over. -/
def appendDigits (significand : Nat) : List Char → Nat × Nat
  | [] => (significand, 0)
  | c :: rest =>
      let longer := significand * 10 + digit c
      if longer < UInt64.size then appendDigits longer rest
      else (significand, rest.length + 1)

/-- A numeral with neither point nor exponent is a whole number if it fits;
every other one is a double, and so is `-0`. Nothing if it is too large. -/
def ofNumeral? (numeral : Numeral) : Option Number :=
  let (leading, dropped) := appendDigits 0 numeral.whole
  let isPlain := numeral.fraction.isNone && numeral.exponent.isNone && dropped == 0
  let value : Int := if numeral.negative then -(leading : Int) else leading
  match isPlain && !(numeral.negative && leading == 0), ofWhole? value with
  | true, some number => some number
  | _, _ =>
      let fraction := numeral.fraction.getD []
      let (significand, ignored) := appendDigits leading fraction
      let exponent : Int :=
        dropped - ((fraction.length - ignored : Nat) : Int) + numeral.exponent.getD 0
      (Double.ofScaled? numeral.negative significand exponent).map .double

end Number

end FieldRules.Json

namespace FieldRules

/-- A document value. The members of an object have an order and may repeat a
name; `Json.sorted` gives the form in which neither can be seen. -/
inductive Json
  | null
  | bool (value : Bool)
  | number (value : Json.Number)
  | string (value : String)
  | array (items : List Json)
  | object (members : List (String × Json))

namespace Json

instance : Inhabited Json := ⟨.null⟩

/-! Sameness and equality of values compare members in order, so they are meant
for sorted values. They differ in the numbers: `1` and `1.0` are equal but not
the same. -/

mutual

def agree (numbers : Number → Number → Bool) : Json → Json → Bool
  | .null, .null => true
  | .bool a, .bool b => a == b
  | .number a, .number b => numbers a b
  | .string a, .string b => a == b
  | .array a, .array b => agreeItems numbers a b
  | .object a, .object b => agreeMembers numbers a b
  | _, _ => false

def agreeItems (numbers : Number → Number → Bool) : List Json → List Json → Bool
  | [], [] => true
  | a :: restA, b :: restB => agree numbers a b && agreeItems numbers restA restB
  | _, _ => false

def agreeMembers (numbers : Number → Number → Bool) :
    List (String × Json) → List (String × Json) → Bool
  | [], [] => true
  | (nameA, a) :: restA, (nameB, b) :: restB =>
      nameA == nameB && agree numbers a b && agreeMembers numbers restA restB
  | _, _ => false

end

def same : Json → Json → Bool := agree Number.same

def equal : Json → Json → Bool := agree Number.equal

def isIn (value : Json) (values : List Json) : Bool := values.any value.same

/-- Appends the values that are not there yet, in order. -/
def addNew (values more : List Json) : List Json :=
  more.foldl (fun values value => if value.isIn values then values else values ++ [value])
    values

mutual

/-- Members ordered by name at every level; a repeated name keeps its last
value. -/
def sorted : Json → Json
  | .array items => .array (sortedItems items)
  | .object members => .object (Entries.sort (sortedMembers members))
  | value => value

def sortedItems : List Json → List Json
  | [] => []
  | item :: rest => sorted item :: sortedItems rest

def sortedMembers : List (String × Json) → List (String × Json)
  | [] => []
  | (name, value) :: rest => (name, sorted value) :: sortedMembers rest

end

def record (members : List (String × Json)) : Json := .object (Entries.sort members)

def member? (value : Json) (name : String) : Option Json :=
  match value with
  | .object members => Entries.get? members name
  | _ => none

def strings (values : List String) : Json := .array (values.map .string)

/-- The values that stand for true where a condition is asked for: everything but
null, false, zero and the empty text. -/
def isTruthy : Json → Bool
  | .null => false
  | .bool value => value
  | .number value => !value.isZero
  | .string value => value != ""
  | .array _ => true
  | .object _ => true

end Json

end FieldRules

namespace FieldRules.Json

/-! The two written forms of a value: on one line without spaces, and with each
item and member on a line of its own, indented by two spaces a level. -/

private def hexDigit (n : Nat) : Char := (Nat.toDigits 16 n).headD '0'

/-- Only quotes, backslashes and control characters are escaped. -/
def escape (c : Char) : List Char :=
  match c with
  | '"' => ['\\', '"']
  | '\\' => ['\\', '\\']
  | '\n' => ['\\', 'n']
  | '\r' => ['\\', 'r']
  | '\t' => ['\\', 't']
  | '\x08' => ['\\', 'b']
  | '\x0c' => ['\\', 'f']
  | c =>
      if c.toNat < 0x20 then
        ['\\', 'u', '0', '0', hexDigit (c.toNat / 16), hexDigit (c.toNat % 16)]
      else [c]

def quote (text : String) : String :=
  String.ofList ('"' :: (text.toList.flatMap escape ++ ['"']))

mutual

def compact : Json → String
  | .null => "null"
  | .bool true => "true"
  | .bool false => "false"
  | .number value => value.write
  | .string value => quote value
  | .array items => "[" ++ ",".intercalate (compactItems items) ++ "]"
  | .object members => "\x7b" ++ ",".intercalate (compactMembers members) ++ "\x7d"

def compactItems : List Json → List String
  | [] => []
  | item :: rest => compact item :: compactItems rest

def compactMembers : List (String × Json) → List String
  | [] => []
  | (name, value) :: rest => (quote name ++ ":" ++ compact value) :: compactMembers rest

end

/-- Parts on lines of their own between an opening and a closing mark; nothing
stands between the marks if there are no parts. -/
def block (opening closing : String) (level : Nat) (parts : List String) : String :=
  let newline (level : Nat) := "\n" ++ String.ofList (List.replicate (2 * level) ' ')
  match parts with
  | [] => opening ++ closing
  | parts =>
      opening ++ newline (level + 1) ++ ("," ++ newline (level + 1)).intercalate parts
        ++ newline level ++ closing

mutual

def prettyAt (level : Nat) : Json → String
  | .array items => block "[" "]" level (prettyItems (level + 1) items)
  | .object members => block "\x7b" "\x7d" level (prettyMembers (level + 1) members)
  | value => compact value

def prettyItems (level : Nat) : List Json → List String
  | [] => []
  | item :: rest => prettyAt level item :: prettyItems level rest

def prettyMembers (level : Nat) : List (String × Json) → List String
  | [] => []
  | (name, value) :: rest =>
      (quote name ++ ": " ++ prettyAt level value) :: prettyMembers level rest

end

def pretty : Json → String := prettyAt 0

end FieldRules.Json
