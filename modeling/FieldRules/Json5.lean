import FieldRules.Settings.Setting

namespace FieldRules.Json5

open Text

/-! Spaces and comments, texts, names and numbers. -/

def isLineEnd (c : Char) : Bool :=
  c == '\n' || c == '\r' || c == '\u2028' || c == '\u2029'

def isBlank (c : Char) : Bool := isSpace c && c.toNat != 0x85 || c == '\uFEFF'

def afterComment? : List Char → Option (List Char)
  | '*' :: '/' :: rest => some rest
  | _ :: rest => afterComment? rest
  | [] => none

/-- Passes over spaces and comments; a comment without an end is left. `fuel`
bounds the number of comments. -/
def skip : (fuel : Nat) → List Char → List Char
  | 0, text => text.dropWhile isBlank
  | fuel + 1, text =>
      match text.dropWhile isBlank with
      | '/' :: '/' :: rest => skip fuel (rest.dropWhile fun c => !isLineEnd c)
      | '/' :: '*' :: rest =>
          match afterComment? rest with
          | some rest => skip fuel rest
          | none => '/' :: '*' :: rest
      | rest => rest

def afterSpaces (text : List Char) : List Char := skip text.length text

/-- A character that is given by one unit or by two. -/
def unitEscape : Scan Char := fun text => do
  let (unit, rest) ← hexValue 4 text
  if isLowUnit unit then none
  else if isHighUnit unit then
    match rest with
    | '\\' :: 'u' :: rest => do
        let (low, rest) ← hexValue 4 rest
        if isLowUnit low then some (joinUnits unit low, rest) else none
    | _ => none
  else some (Char.ofNat unit, rest)

/-- An escape after its backslash. A line end is taken away. -/
def escape : Scan (List Char)
  | [] => none
  | '\r' :: '\n' :: rest => some ([], rest)
  | 'x' :: rest => (hexChar 2 rest).map fun (c, rest) => ([c], rest)
  | 'u' :: rest => (unitEscape rest).map fun (c, rest) => ([c], rest)
  | 'b' :: rest => some (['\x08'], rest)
  | 'f' :: rest => some (['\x0c'], rest)
  | 'n' :: rest => some (['\n'], rest)
  | 'r' :: rest => some (['\r'], rest)
  | 't' :: rest => some (['\t'], rest)
  | 'v' :: rest => some (['\x0b'], rest)
  | '0' :: rest => some (['\x00'], rest)
  | c :: rest =>
      if isLineEnd c then some ([], rest)
      else if c.isDigit then none
      else some ([c], rest)

/-- A text after its opening quote. `fuel` bounds the number of characters. -/
def textAfter (quote : Char) : (fuel : Nat) → (done : List Char) → Scan String
  | 0, _, _ => none
  | _ + 1, _, [] => none
  | fuel + 1, done, c :: rest =>
      if c = quote then some (String.ofList done.reverse, rest)
      else if c = '\\' then
        (escape rest).bind fun (chars, rest) => textAfter quote fuel (chars ++ done) rest
      else if isLineEnd c then none
      else textAfter quote fuel (c :: done) rest

def quoted : Scan String
  | '"' :: rest => textAfter '"' (rest.length + 1) [] rest
  | '\'' :: rest => textAfter '\'' (rest.length + 1) [] rest
  | _ => none

/-! Names may stand without quotes. Beyond ASCII every character that can be seen
counts as a letter. -/

def startsName (c : Char) : Bool :=
  c.isAlpha || c == '$' || c == '_' || (0x7F < c.toNat && !isInvisible c)

def continuesName (c : Char) : Bool :=
  startsName c || c.isDigit || c == '\u200C' || c == '\u200D'

def nameAfter : (fuel : Nat) → (done : List Char) → Scan String
  | 0, _, _ => none
  | fuel + 1, done, '\\' :: 'u' :: rest =>
      (unitEscape rest).bind fun (c, rest) => nameAfter fuel (c :: done) rest
  | fuel + 1, done, c :: rest =>
      if continuesName c then nameAfter fuel (c :: done) rest
      else some (String.ofList done.reverse, c :: rest)
  | _ + 1, done, [] => some (String.ofList done.reverse, [])

def name : Scan String := fun text =>
  match text with
  | '"' :: _ | '\'' :: _ => quoted text
  | '\\' :: _ => nameAfter (text.length + 1) [] text
  | c :: _ => if startsName c then nameAfter (text.length + 1) [] text else none
  | [] => none

/-! Numbers without a point and an exponent are whole numbers of 64 bits. -/

/-- The fraction of a decimal numeral and what follows, if there is a point. -/
def fraction (text : List Char) : Option (List Char) × List Char :=
  match text with
  | '.' :: rest =>
      let digits := rest.takeWhile Char.isDigit
      (some digits, rest.drop digits.length)
  | _ => (none, text)

/-- The exponent of a decimal numeral and what follows, if it is complete. -/
def exponent (text : List Char) : Option Int × List Char :=
  match text with
  | mark :: rest =>
      let (negative, rest) := Numeral.sign rest
      let digits := rest.takeWhile Char.isDigit
      if (mark = 'e' ∨ mark = 'E') ∧ digits ≠ [] then
        let size : Int := natOf 10 digits
        (some (if negative then -size else size), rest.drop digits.length)
      else (none, text)
  | [] => (none, [])

def decimal (negative : Bool) : Scan Setting := fun text => do
  let run := text.takeWhile Char.isDigit
  let whole := match run with
    | '0' :: _ => ['0']
    | run => run
  let (fraction, rest) := fraction (text.drop whole.length)
  let (exponent, rest) := exponent rest
  if whole = [] ∧ fraction.getD [] = [] then none
  else match fraction, exponent with
    | none, none =>
        let size : Int := natOf 10 whole
        let value := if negative then -size else size
        if -0x8000000000000000 ≤ value ∧ value < 0x8000000000000000 then
          some (.integer value, rest)
        else none
    | fraction, exponent =>
        match Real64.ofNumeral negative whole (fraction.getD []) (exponent.getD 0) with
        | .infinite _ => none
        | value => some (.real value, rest)

/-- Hexadecimal numbers have no sign and 32 bits. -/
def hexadecimal : Scan Setting := fun text =>
  let digits := text.takeWhile isHexDigit
  let value := natOf 16 digits
  if digits ≠ [] ∧ value < 0x100000000 then some (.integer value, text.drop digits.length)
  else none

def number : Scan Setting := fun text =>
  match text with
  | '0' :: 'x' :: rest | '0' :: 'X' :: rest => hexadecimal rest
  | text =>
      let (negative, rest) := Numeral.sign text
      let isPlain := text.head? != some '+'
      match rest with
      | 'I' :: 'n' :: 'f' :: 'i' :: 'n' :: 'i' :: 't' :: 'y' :: rest =>
          if isPlain then some (.real (.infinite negative), rest) else none
      | 'N' :: 'a' :: 'N' :: rest => if isPlain then some (.real .undefined, rest) else none
      | rest => decimal negative rest

end FieldRules.Json5

namespace FieldRules.Json5

/-! Documents of one value, which has to be an object. `fuel` bounds the number and
depth of values; every reader starts where something stands and stops right after
what it has read. -/

mutual

def value : (fuel : Nat) → Text.Scan Setting
  | 0, _ => none
  | fuel + 1, text =>
      match text with
      | '{' :: rest => members fuel [] (afterSpaces rest)
      | '[' :: rest => items fuel [] (afterSpaces rest)
      | '"' :: _ | '\'' :: _ => (quoted text).map fun (content, rest) => (.text content, rest)
      | 'n' :: 'u' :: 'l' :: 'l' :: rest => some (.nothing, rest)
      | 't' :: 'r' :: 'u' :: 'e' :: rest => some (.bool true, rest)
      | 'f' :: 'a' :: 'l' :: 's' :: 'e' :: rest => some (.bool false, rest)
      | text => number text

/-- The items of a list and its end; the last item may have a comma. -/
def items : (fuel : Nat) → (done : List Setting) → Text.Scan Setting
  | 0, _, _ => none
  | fuel + 1, done, text =>
      match text with
      | ']' :: rest => some (.list done.reverse, rest)
      | text =>
          match value fuel text with
          | none => none
          | some (item, rest) =>
              match afterSpaces rest with
              | ',' :: rest => items fuel (item :: done) (afterSpaces rest)
              | ']' :: rest => some (.list (item :: done).reverse, rest)
              | _ => none

/-- The members of an object and its end; the last member may have a comma. -/
def members : (fuel : Nat) → (done : Entries Setting) → Text.Scan Setting
  | 0, _, _ => none
  | fuel + 1, done, text =>
      match text with
      | '}' :: rest => some (.table done, rest)
      | text =>
          match (name text).map fun (name, rest) => (name, afterSpaces rest) with
          | some (name, ':' :: rest) =>
              match value fuel (afterSpaces rest) with
              | none => none
              | some (content, rest) =>
                  match afterSpaces rest with
                  | ',' :: rest => members fuel (done.put name content) (afterSpaces rest)
                  | '}' :: rest => some (.table (done.put name content), rest)
                  | _ => none
          | _ => none

end

def parse? (text : String) : Option (List (String × Setting)) :=
  match value (text.length + 1) (afterSpaces text.toList) with
  | some (.table entries, rest) => if (afterSpaces rest).isEmpty then some entries else none
  | _ => none

end FieldRules.Json5
