import FieldRules.Settings.Setting

namespace FieldRules.Ron

open Text

/-! Spaces and comments, names, texts and numbers. -/

def isBlank (c : Char) : Bool := c == ' ' || c == '\t' || c == '\n' || c == '\r'

/-- The characters after the end of a comment, which can have others in it; `depth`
counts those that are open besides. -/
def afterComment? (depth : Nat) : List Char → Option (List Char)
  | '*' :: '/' :: rest =>
      match depth with
      | 0 => some rest
      | depth + 1 => afterComment? depth rest
  | '/' :: '*' :: rest => afterComment? (depth + 1) rest
  | _ :: rest => afterComment? depth rest
  | [] => none

/-- Passes over spaces and comments; a comment without an end is left. `fuel`
bounds the number of comments. -/
def skip : (fuel : Nat) → List Char → List Char
  | 0, text => text.dropWhile isBlank
  | fuel + 1, text =>
      match text.dropWhile isBlank with
      | '/' :: '/' :: rest => skip fuel (rest.dropWhile (· != '\n'))
      | '/' :: '*' :: rest =>
          match afterComment? 0 rest with
          | some rest => skip fuel rest
          | none => '/' :: '*' :: rest
      | rest => rest

def afterSpaces (text : List Char) : List Char := skip text.length text

def startsName (c : Char) : Bool := c.isAlpha || c == '_'

def continuesName (c : Char) : Bool := c.isAlphanum || c == '_'

def name : Scan String := fun text =>
  match text with
  | c :: _ =>
      if startsName c then
        let run := text.takeWhile continuesName
        some (String.ofList run, text.drop run.length)
      else none
  | [] => none

def escape : Scan Char
  | '"' :: rest => some ('"', rest)
  | '\'' :: rest => some ('\'', rest)
  | '\\' :: rest => some ('\\', rest)
  | 'n' :: rest => some ('\n', rest)
  | 'r' :: rest => some ('\r', rest)
  | 't' :: rest => some ('\t', rest)
  | '0' :: rest => some ('\x00', rest)
  | 'x' :: rest => hexChar 2 rest
  | 'u' :: '{' :: rest =>
      let digits := rest.takeWhile isHexDigit
      match rest.drop digits.length with
      | '}' :: rest =>
          if digits = [] ∨ 6 < digits.length then none
          else (charOf? (natOf 16 digits)).map fun c => (c, rest)
      | _ => none
  | _ => none

/-- A text after its opening quote. `fuel` bounds the number of characters. -/
def textAfter : (fuel : Nat) → (done : List Char) → Scan String
  | 0, _, _ => none
  | _ + 1, _, [] => none
  | fuel + 1, done, c :: rest =>
      if c = '"' then some (String.ofList done.reverse, rest)
      else if c = '\\' then (escape rest).bind fun (c, rest) => textAfter fuel (c :: done) rest
      else textAfter fuel (c :: done) rest

/-- A text without escapes, up to a quote and a number of marks. -/
def rawAfter (marks : Nat) : (done : List Char) → Scan String
  | _, [] => none
  | done, c :: rest =>
      if c = '"' ∧ rest.take marks = List.replicate marks '#' then
        some (String.ofList done.reverse, rest.drop marks)
      else rawAfter marks (c :: done) rest

def raw : Scan String := fun text =>
  let marks := text.takeWhile (· == '#')
  match text.drop marks.length with
  | '"' :: rest => rawAfter marks.length [] rest
  | _ => none

def characterAfter : Scan String := fun text => do
  let (c, rest) ← match text with
    | '\\' :: rest => escape rest
    | c :: rest => some (c, rest)
    | [] => none
  match rest with
  | '\'' :: rest => some (String.singleton c, rest)
  | _ => none

def isNumeralChar (c : Char) : Bool :=
  c.isAlphanum || c == '_' || c == '.' || c == '+' || c == '-'

/-- The digits of a whole number, after the letter of its base if it has one. -/
def wholeOf? (text : List Char) : Option Nat :=
  let (base, digits) := match text with
    | '0' :: 'x' :: rest => (16, rest)
    | '0' :: 'o' :: rest => (8, rest)
    | '0' :: 'b' :: rest => (2, rest)
    | rest => (10, rest)
  let isDigit (c : Char) : Bool := (hexDigit? c).any fun digit => digit < base
  if digits = [] ∨ !digits.all isDigit then none else some (natOf base digits)

/-- A number; single digits can be set apart. -/
def number : Scan Setting := fun text => do
  let word := text.takeWhile isNumeralChar
  let rest := text.drop word.length
  let plain := word.filter (· != '_')
  let (negative, size) := Numeral.sign plain
  if size.any fun c => c == '.' || c == '+' || c == '-' then
    return (.real (← Numeral.real? (String.ofList plain)), rest)
  else
    let size : Int := ← wholeOf? size
    let value := if negative then -size else size
    if -0x8000000000000000 ≤ value ∧ value < 0x8000000000000000 then
      some (.integer value, rest)
    else none

/-! Documents of one value, which has to be a record or a map. -/

/-- Whether a parenthesis opens a record, whose parts have names. -/
def hasNames (text : List Char) : Bool :=
  match (name text).map fun (_, rest) => afterSpaces rest with
  | some (':' :: _) => true
  | _ => false

/-- What a closing bracket or a comma does in a list of parts. -/
inductive After
  | more (rest : List Char)
  | finished (rest : List Char)

def after? (closing : Char) (text : List Char) : Option After :=
  match afterSpaces text with
  | ',' :: rest => some (.more (afterSpaces rest))
  | c :: rest => if c = closing then some (.finished rest) else none
  | [] => none

/-! `fuel` bounds the number and depth of values. -/

mutual

def value : (fuel : Nat) → Scan Setting
  | 0, _ => none
  | fuel + 1, text =>
      match text with
      | '(' :: rest => grouped fuel (afterSpaces rest)
      | '[' :: rest => items ']' fuel [] (afterSpaces rest)
      | '{' :: rest => members fuel [] (afterSpaces rest)
      | '"' :: rest =>
          (textAfter (rest.length + 1) [] rest).map fun (content, rest) => (.text content, rest)
      | 'r' :: '"' :: rest => (raw ('"' :: rest)).map fun (content, rest) => (.text content, rest)
      | 'r' :: '#' :: rest => (raw ('#' :: rest)).map fun (content, rest) => (.text content, rest)
      | '\'' :: rest => (characterAfter rest).map fun (content, rest) => (.text content, rest)
      | text =>
          match name text with
          | some ("true", rest) => some (.bool true, rest)
          | some ("false", rest) => some (.bool false, rest)
          | some ("inf", rest) => some (.real (.infinite false), rest)
          | some ("NaN", rest) => some (.real .undefined, rest)
          | some ("Some", rest) => optional fuel (afterSpaces rest)
          | some ("None", rest) => some (.nothing, rest)
          | some (_, rest) =>
              match afterSpaces rest with
              | '(' :: rest => grouped fuel (afterSpaces rest)
              | _ => some (.nothing, rest)
          | none => number text

def optional : (fuel : Nat) → Scan Setting
  | 0, _ => none
  | fuel + 1, text =>
      match text with
      | '(' :: rest =>
          match value fuel (afterSpaces rest) with
          | none => none
          | some (content, rest) =>
              match afterSpaces rest with
              | ')' :: rest => some (content, rest)
              | _ => none
      | _ => none

def grouped : (fuel : Nat) → Scan Setting
  | 0, _ => none
  | fuel + 1, text =>
      match text with
      | ')' :: rest => some (.nothing, rest)
      | text => if hasNames text then fields fuel [] text else items ')' fuel [] text

def items (closing : Char) : (fuel : Nat) → (done : List Setting) → Scan Setting
  | 0, _, _ => none
  | fuel + 1, done, text =>
      if text.head? = some closing then some (.list done.reverse, text.drop 1)
      else match value fuel text with
        | none => none
        | some (item, rest) =>
            match after? closing rest with
            | some (.more rest) => items closing fuel (item :: done) rest
            | some (.finished rest) => some (.list (item :: done).reverse, rest)
            | none => none

def fields : (fuel : Nat) → (done : Entries Setting) → Scan Setting
  | 0, _, _ => none
  | fuel + 1, done, text =>
      match text with
      | ')' :: rest => some (.table done, rest)
      | text =>
          match (name text).map fun (name, rest) => (name, afterSpaces rest) with
          | some (name, ':' :: rest) =>
              match value fuel (afterSpaces rest) with
              | none => none
              | some (content, rest) =>
                  match after? ')' rest with
                  | some (.more rest) => fields fuel (done.put name content) rest
                  | some (.finished rest) => some (.table (done.put name content), rest)
                  | none => none
          | _ => none

/-- The members of a map, whose keys have to be texts. -/
def members : (fuel : Nat) → (done : Entries Setting) → Scan Setting
  | 0, _, _ => none
  | fuel + 1, done, text =>
      match text with
      | '}' :: rest => some (.table done, rest)
      | text =>
          match value fuel text with
          | some (.text name, rest) =>
              match afterSpaces rest with
              | ':' :: rest =>
                  match value fuel (afterSpaces rest) with
                  | none => none
                  | some (content, rest) =>
                      match after? '}' rest with
                      | some (.more rest) => members fuel (done.put name content) rest
                      | some (.finished rest) => some (.table (done.put name content), rest)
                      | none => none
              | _ => none
          | _ => none

end

def parse? (text : String) : Option (List (String × Setting)) :=
  let start := afterSpaces text.toList
  match value (2 * text.length + 2) start with
  | some (.table entries, rest) => if (afterSpaces rest).isEmpty then some entries else none
  | _ => none

end FieldRules.Ron
