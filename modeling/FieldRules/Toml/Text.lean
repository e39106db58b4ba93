import FieldRules.Text

namespace FieldRules.Toml

/-! Texts are written in the plainest form that fits: between double quotes,
between single ones, and between three of them. Escapes come last. -/

def longestRun (c : Char) (text : List Char) : Nat :=
  (text.foldl (fun (longest, run) d =>
    let run := if d = c then run + 1 else 0
    (max longest run, run)) (0, 0)).1

def needsEscape (c : Char) : Bool :=
  (c.toNat < 0x20 && c != '\t' && c != '\n') || c.toNat == 0x7F

def upperHex (width n : Nat) : List Char :=
  let digits := (Nat.toDigits 16 n).map Char.toUpper
  List.replicate (width - digits.length) '0' ++ digits

/-- Escapes what cannot stand between double quotes. On several lines, line ends
and up to two quotes in a row are left as they are. -/
def escaped (lines : Bool) (quotes : Nat) : List Char → List Char
  | [] => []
  | c :: rest =>
      if c = '"' then
        if quotes < (if lines then 2 else 0) then c :: escaped lines (quotes + 1) rest
        else '\\' :: '"' :: escaped lines 0 rest
      else
        (match c with
          | '\x08' => ['\\', 'b']
          | '\t' => ['\\', 't']
          | '\n' => if lines then ['\n'] else ['\\', 'n']
          | '\x0c' => ['\\', 'f']
          | '\r' => ['\\', 'r']
          | '\\' => ['\\', '\\']
          | c => if needsEscape c then '\\' :: 'u' :: upperHex 4 c.toNat else [c])
          ++ escaped lines 0 rest

def between (quotes : String) (body : List Char) : String :=
  quotes ++ String.ofList body ++ quotes

def quote (text : String) : String :=
  let chars := text.toList
  let hasControl := chars.any needsEscape
  let hasBackslash := chars.contains '\\'
  let hasLines := chars.contains '\n'
  let doubles := longestRun '"' chars
  let singles := longestRun '\'' chars
  let opened := if hasLines then '\n' :: chars else chars
  if !hasControl && !hasBackslash && doubles == 0 && !hasLines then
    between "\"" (escaped false 0 chars)
  else if !hasControl && singles == 0 && !hasLines then between "'" chars
  else if !hasControl && !hasBackslash && doubles ≤ 2 then
    between "\"\"\"" ((if hasLines then ['\n'] else []) ++ escaped true 0 chars)
  else if !hasControl && singles ≤ 2 then between "'''" opened
  else if hasLines then between "\"\"\"" ('\n' :: escaped true 0 chars)
  else between "\"" (escaped false 0 chars)

end FieldRules.Toml

namespace FieldRules.Toml

open Text

/-! Blanks, comments and the four kinds of quoted texts. -/

def isBlank (c : Char) : Bool := c == ' ' || c == '\t'

/-- Control characters other than the tab cannot stand in a document, except that
line ends divide it. -/
def isControl (c : Char) : Bool := (c.toNat < 0x20 && c != '\t') || c.toNat == 0x7F

def skipBlanks (text : List Char) : List Char := text.dropWhile isBlank

def lineEnd? : List Char → Option (List Char)
  | '\n' :: rest => some rest
  | '\r' :: '\n' :: rest => some rest
  | _ => none

def skipComment (text : List Char) : List Char :=
  match skipBlanks text with
  | '#' :: rest => rest.dropWhile fun c => !isControl c
  | rest => rest

/-- Passes over blank lines and comments; `lines` bounds the number of lines. -/
def skipLines : (lines : Nat) → List Char → List Char
  | 0, text => skipBlanks text
  | lines + 1, text =>
      match lineEnd? (skipComment text) with
      | some rest => skipLines lines rest
      | none => skipComment text

/-- Passes over blanks and line ends; `lines` bounds the number of lines. -/
def skipEmpty : (lines : Nat) → List Char → List Char
  | 0, text => skipBlanks text
  | lines + 1, text =>
      match lineEnd? (skipBlanks text) with
      | some rest => skipEmpty lines rest
      | none => skipBlanks text

def escape : Scan Char
  | 'b' :: rest => some ('\x08', rest)
  | 't' :: rest => some ('\t', rest)
  | 'n' :: rest => some ('\n', rest)
  | 'f' :: rest => some ('\x0c', rest)
  | 'r' :: rest => some ('\r', rest)
  | '"' :: rest => some ('"', rest)
  | '\\' :: rest => some ('\\', rest)
  | 'u' :: rest => hexChar 4 rest
  | 'U' :: rest => hexChar 8 rest
  | _ => none

/-- A text on one line between double quotes, after the first of them. `fuel`
bounds the number of characters. -/
def basic : (fuel : Nat) → (done : List Char) → Scan String
  | 0, _, _ => none
  | _ + 1, _, [] => none
  | fuel + 1, done, c :: rest =>
      if c = '"' then some (String.ofList done.reverse, rest)
      else if c = '\\' then
        (escape rest).bind fun (c, rest) => basic fuel (c :: done) rest
      else if isControl c then none
      else basic fuel (c :: done) rest

/-- A text on one line between single quotes, after the first of them. -/
def literal : Scan String := fun text =>
  let body := text.takeWhile fun c => c != '\'' && !isControl c
  match text.drop body.length with
  | '\'' :: rest => some (String.ofList body, rest)
  | _ => none

/-- Whether only blanks stand between here and the end of the line. -/
def endsLine (text : List Char) : Bool := (lineEnd? (skipBlanks text)).isSome

/-- Quotes at the end of a text on several lines: three end it, and up to two more
before them belong to it. -/
def closing (quote : Char) (done text : List Char) : Option (String × List Char) :=
  let run := text.takeWhile (· == quote)
  if 3 ≤ run.length ∧ run.length ≤ 5 then
    some (String.ofList (List.replicate (run.length - 3) quote ++ done).reverse,
      text.drop run.length)
  else none

/-- A text on several lines, after its opening quotes. Backslashes escape only
between double quotes, and one at the end of a line takes the blanks and lines
after it away. -/
def several (quote : Char) : (fuel : Nat) → (done : List Char) → Scan String
  | 0, _, _ => none
  | _ + 1, _, [] => none
  | fuel + 1, done, c :: rest =>
      if c = quote then
        if (c :: rest).take 3 = [quote, quote, quote] then closing quote done (c :: rest)
        else several quote fuel (c :: done) rest
      else if c = '\\' ∧ quote = '"' then
        if endsLine rest then
          several quote fuel done (skipEmpty rest.length rest)
        else (escape rest).bind fun (c, rest) => several quote fuel (c :: done) rest
      else match lineEnd? (c :: rest) with
        | some rest => several quote fuel ('\n' :: done) rest
        | none => if isControl c then none else several quote fuel (c :: done) rest

/-- A line end right after the opening quotes does not count. -/
def afterOpening (text : List Char) : List Char := (lineEnd? text).getD text

/-- A quoted text of any kind; `lines` tells whether it may have several lines. -/
def quotedText (lines : Bool) : Scan String
  | '"' :: '"' :: '"' :: rest =>
      if lines then several '"' (rest.length + 1) [] (afterOpening rest) else none
  | '\'' :: '\'' :: '\'' :: rest =>
      if lines then several '\'' (rest.length + 1) [] (afterOpening rest) else none
  | '"' :: rest => basic (rest.length + 1) [] rest
  | '\'' :: rest => literal rest
  | _ => none

/-! A date, a time or both stand for the text that they have in their plainest
form. -/

/-- A number of `count` digits that lies between two bounds. -/
def bounded (count least greatest : Nat) : Scan Nat := fun text =>
  let digits := text.take count
  let value := natOf 10 digits
  if digits.length = count ∧ digits.all Char.isDigit ∧ least ≤ value ∧ value ≤ greatest then
    some (value, text.drop count)
  else none

def past (expected : Char) : List Char → Option (List Char)
  | c :: rest => if c = expected then some rest else none
  | [] => none

def padded (width value : Nat) : String :=
  let digits := (toString value).toList
  String.ofList (List.replicate (width - digits.length) '0' ++ digits)

def isLeapYear (year : Nat) : Bool :=
  year % 4 == 0 && (year % 100 != 0 || year % 400 == 0)

def daysOf (year month : Nat) : Nat :=
  match month with
  | 2 => if isLeapYear year then 29 else 28
  | 4 | 6 | 9 | 11 => 30
  | _ => 31

def date : Scan String := fun text => do
  let (year, rest) ← bounded 4 0 9999 text
  let (month, rest) ← bounded 2 1 12 (← past '-' rest)
  let (day, rest) ← bounded 2 1 (daysOf year month) (← past '-' rest)
  return (padded 4 year ++ "-" ++ padded 2 month ++ "-" ++ padded 2 day, rest)

/-- A fraction of a second counts up to its ninth digit. -/
def fraction (text : List Char) : String × List Char :=
  match text with
  | '.' :: rest =>
      match rest.takeWhile Char.isDigit with
      | [] => ("", text)
      | digits =>
          match ((digits.take 9).reverse.dropWhile (· == '0')).reverse with
          | [] => ("", rest.drop digits.length)
          | kept => ("." ++ String.ofList kept, rest.drop digits.length)
  | _ => ("", text)

def time : Scan String := fun text => do
  let (hour, rest) ← bounded 2 0 23 text
  let (minute, rest) ← bounded 2 0 59 (← past ':' rest)
  let (second, rest) ← bounded 2 0 60 (← past ':' rest)
  let (fraction, rest) := fraction rest
  return (padded 2 hour ++ ":" ++ padded 2 minute ++ ":" ++ padded 2 second ++ fraction, rest)

def offsetSize : Scan String := fun text => do
  let (hours, rest) ← bounded 2 0 23 text
  let (minutes, rest) ← bounded 2 0 59 (← past ':' rest)
  return (padded 2 hours ++ ":" ++ padded 2 minutes, rest)

/-- How far a time is from the one at the prime meridian, if that is said. -/
def offset (text : List Char) : String × List Char :=
  match text with
  | 'Z' :: rest | 'z' :: rest => ("Z", rest)
  | '+' :: rest =>
      match offsetSize rest with
      | some (size, rest) => ("+" ++ size, rest)
      | none => ("", text)
  | '-' :: rest =>
      match offsetSize rest with
      | some (size, rest) => ((if size = "00:00" then "+" else "-") ++ size, rest)
      | none => ("", text)
  | _ => ("", text)

def timeAfterDate : Scan String
  | mark :: rest => do
      if mark = 'T' ∨ mark = 't' ∨ mark = ' ' then
        let (time, rest) ← time rest
        let (offset, rest) := offset rest
        return ("T" ++ time ++ offset, rest)
      else none
  | [] => none

def moment : Scan String := fun text =>
  match date text with
  | none => time text
  | some (date, rest) =>
      match timeAfterDate rest with
      | some (time, rest) => some (date ++ time, rest)
      | none => some (date, rest)

end FieldRules.Toml
