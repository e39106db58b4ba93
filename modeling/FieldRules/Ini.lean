import FieldRules.Settings.Setting

namespace FieldRules.Ini

open Text

/-! Lines of names and values, divided into sections. All values are texts. -/

def isLineEnd (c : Char) : Bool := c == '\n' || c == '\r'

/-- An escape after its backslash. A line end is taken away, and a character
without a meaning of its own stands for itself. -/
def escape : Scan (List Char)
  | [] => none
  | 'x' :: rest => (hexChar 4 rest).map fun (c, rest) => ([c], rest)
  | '\n' :: rest => some ([], rest)
  | '0' :: rest => some (['\x00'], rest)
  | 'a' :: rest => some (['\x07'], rest)
  | 'b' :: rest => some (['\x08'], rest)
  | 't' :: rest => some (['\t'], rest)
  | 'r' :: rest => some (['\r'], rest)
  | 'n' :: rest => some (['\n'], rest)
  | c :: rest => some ([c], rest)

/-- A text up to a mark, which is not taken; `mayEnd` tells whether the end of the
document can stand for the mark. `fuel` bounds the number of characters. -/
def textUntil (isMark : Char → Bool) (mayEnd : Bool) :
    (fuel : Nat) → (done : List Char) → Scan (List Char)
  | 0, _, _ => none
  | _ + 1, done, [] => if mayEnd then some (done.reverse, []) else none
  | fuel + 1, done, c :: rest =>
      if isMark c then some (done.reverse, c :: rest)
      else if c = '\\' then
        (escape rest).bind fun (chars, rest) =>
          textUntil isMark mayEnd fuel (chars.reverse ++ done) rest
      else textUntil isMark mayEnd fuel (c :: done) rest

def textBefore (isMark : Char → Bool) : Scan (List Char) := fun text =>
  (textUntil isMark false (text.length + 1) [] text).map fun (body, rest) => (body, rest.drop 1)

/-- Quoted parts that follow each other, and then the rest of the line. -/
def valueAfter : (fuel : Nat) → (done : List Char) → (quoted : Bool) → Scan (List Char)
  | 0, _, _, _ => none
  | _ + 1, done, _, [] => some (done, [])
  | fuel + 1, done, quoted, c :: rest =>
      if c = '"' ∨ c = '\'' then
        (textBefore (· == c) rest).bind fun (body, rest) =>
          valueAfter fuel (done ++ body) true rest
      else
        (textUntil isLineEnd true (rest.length + 2) [] (c :: rest)).map fun (body, rest) =>
          (done ++ (if quoted then trimEnd body else trim body), rest)

def value : Scan String := fun text =>
  let text := text.dropWhile fun c => isSpace c && !isLineEnd c
  (valueAfter (text.length + 1) [] false text).map fun (body, rest) => (String.ofList body, rest)

/-- A document so far: the entries before all sections, and the sections, the
latest first. -/
structure Progress where
  general : Entries Setting
  sections : List (String × Entries Setting)

namespace Progress

def openSection (progress : Progress) (title : String) : Progress :=
  { progress with sections := (title, []) :: progress.sections }

def addEntry (progress : Progress) (name value : String) : Progress :=
  match progress.sections with
  | [] => { progress with general := progress.general.put name (.text value) }
  | (title, entries) :: older =>
      { progress with sections := (title, entries.put name (.text value)) :: older }

/-- A section that comes again takes the place of the one before. -/
def entries (progress : Progress) : Entries Setting :=
  progress.general.putAll
    (progress.sections.reverse.map fun entry => (entry.1, .table entry.2))

end Progress

def isDivider (c : Char) : Bool := c == '=' || c == ':'

def entry : Scan (String × String) := fun text => do
  let (name, rest) ← textBefore isDivider text
  let (value, rest) ← value rest
  match trim name with
  | [] => none
  | name => some ((String.ofList name, value), rest)

/-- `fresh` tells whether a line starts here, where a comment may stand. -/
def lines : (fuel : Nat) → (fresh : Bool) → Progress → List Char → Option Progress
  | 0, _, _, _ => none
  | fuel + 1, fresh, progress, text =>
      let spaces := text.takeWhile isSpace
      let fresh := (spaces.getLast?.map (· == '\n')).getD fresh
      match text.drop spaces.length with
      | [] => some progress
      | '[' :: rest =>
          match textBefore (· == ']') rest with
          | none => none
          | some (title, rest) =>
              lines fuel false (progress.openSection (String.ofList (trim title))) rest
      | c :: rest =>
          if c = ';' ∨ c = '#' then
            if fresh then lines fuel true progress ((rest.dropWhile (· != '\n')).drop 1)
            else none
          else match entry (c :: rest) with
            | none => none
            | some ((name, value), rest) => lines fuel false (progress.addEntry name value) rest

def parse? (text : String) : Option (List (String × Setting)) :=
  (lines (text.length + 1) true ⟨[], []⟩ text.toList).map Progress.entries

end FieldRules.Ini
