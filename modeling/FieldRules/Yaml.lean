import FieldRules.Settings.Setting

namespace FieldRules.Yaml

open Text

def isBlank (c : Char) : Bool := c == ' ' || c == '\t'

def isLineEnd (c : Char) : Bool := c == '\n' || c == '\r'

def isFlowMark (c : Char) : Bool :=
  c == ',' || c == '[' || c == ']' || c == '{' || c == '}'

/-- The rest of a text, and the column in which it starts. -/
structure Cursor where
  rest : List Char
  column : Nat

namespace Cursor

def drop (cursor : Cursor) (count : Nat) : Cursor :=
  ⟨cursor.rest.drop count, cursor.column + count⟩

def dropWhile (cursor : Cursor) (test : Char → Bool) : Cursor :=
  cursor.drop (cursor.rest.takeWhile test).length

def nextLine? (cursor : Cursor) : Option Cursor :=
  match cursor.rest with
  | '\r' :: '\n' :: rest => some ⟨rest, 0⟩
  | c :: rest => if isLineEnd c then some ⟨rest, 0⟩ else none
  | [] => none

def isLineDone (cursor : Cursor) : Bool :=
  match cursor.rest with
  | [] => true
  | c :: _ => isLineEnd c

def isGap : List Char → Bool
  | [] => true
  | c :: _ => isBlank c || isLineEnd c

def skipComment (cursor : Cursor) : Cursor :=
  let cursor := cursor.dropWhile isBlank
  match cursor.rest with
  | '#' :: _ => cursor.dropWhile fun c => !isLineEnd c
  | _ => cursor

/-- Passes over blanks, comments and lines without anything else. At the start of a
line only spaces are blanks, unless brackets are open. -/
def skipLines (bracketed : Bool) : (fuel : Nat) → Cursor → Cursor
  | 0, cursor => cursor
  | fuel + 1, cursor =>
      let cursor := if cursor.column = 0 ∧ !bracketed then cursor.dropWhile (· == ' ') else cursor
      match cursor.skipComment.nextLine? with
      | some next => skipLines bracketed fuel next
      | none =>
          match cursor.rest with
          | '\t' :: _ => if bracketed then cursor.skipComment else cursor
          | _ => cursor.skipComment

def toNext (cursor : Cursor) : Cursor := cursor.skipLines false (cursor.rest.length + 1)

def toNextInside (cursor : Cursor) : Cursor := cursor.skipLines true (cursor.rest.length + 1)

/-- Whether a line here starts a document or ends one. -/
def isDocumentMark (cursor : Cursor) : Bool :=
  cursor.column = 0 && match cursor.rest with
    | '-' :: '-' :: '-' :: rest | '.' :: '.' :: '.' :: rest => isGap rest
    | _ => false

end Cursor

/-- What was found and where it ends, or nothing if there is a fault. -/
abbrev Find (α : Type) := Cursor → Option (α × Cursor)

/-! Texts go on over several lines: one line end is a space, and of more line ends
all but the first count. -/

/-- The line ends from here on with the blanks around them, counted. `fuel` bounds
their number. -/
def lineEnds : (fuel : Nat) → Cursor → Nat × Cursor
  | 0, cursor => (0, cursor)
  | fuel + 1, cursor =>
      match (cursor.dropWhile isBlank).nextLine? with
      | none => (0, cursor.dropWhile isBlank)
      | some next =>
          let (count, cursor) := lineEnds fuel next
          (count + 1, cursor)

def fold : (lineEnds : Nat) → List Char
  | 0 => []
  | 1 => [' ']
  | more + 2 => List.replicate (more + 1) '\n'

def endsPlain (bracketed : Bool) : List Char → Bool
  | [] => true
  | ':' :: rest => Cursor.isGap rest || (bracketed && rest.head?.any isFlowMark)
  | c :: _ => isBlank c || isLineEnd c || (bracketed && isFlowMark c)

/-- The characters up to a gap or an end. -/
def plainWord (bracketed : Bool) : List Char → List Char
  | [] => []
  | c :: rest => if endsPlain bracketed (c :: rest) then [] else c :: plainWord bracketed rest

/-- A text without quotes after its first words. On a line of its own it goes on at
a column of at least `least`. `fuel` bounds the number of words. -/
def plainAfter (bracketed : Bool) (least : Nat) : (fuel : Nat) → (done : List Char) →
    Cursor → List Char × Cursor
  | 0, done, cursor => (done, cursor)
  | fuel + 1, done, cursor =>
      let blanks := cursor.rest.takeWhile isBlank
      let (count, next) := lineEnds (cursor.rest.length + 1) cursor
      let stops := next.isDocumentMark || next.rest.head? == some '#'
        || (0 < count && !bracketed && next.column < least)
      match if stops then [] else plainWord bracketed next.rest with
      | [] => (done, cursor)
      | word =>
          let gap := if count = 0 then blanks else fold count
          plainAfter bracketed least fuel (done ++ gap ++ word) (next.drop word.length)

def startsPlain (bracketed : Bool) : List Char → Bool
  | '-' :: rest => !Cursor.isGap rest
  | ':' :: rest | '?' :: rest => !bracketed && !Cursor.isGap rest
  | c :: _ =>
      !(isBlank c || isLineEnd c || isFlowMark c
        || ['#', '&', '*', '!', '|', '>', '\'', '"', '%', '@', '\x60'].contains c)
  | [] => false

def plain (bracketed : Bool) (least : Nat) : Find String := fun cursor =>
  if startsPlain bracketed cursor.rest then
    let (body, after) := plainAfter bracketed least (cursor.rest.length + 1) [] cursor
    some (String.ofList body, after)
  else none

def escape : Scan Char
  | '0' :: rest => some ('\x00', rest)
  | 'a' :: rest => some ('\x07', rest)
  | 'b' :: rest => some ('\x08', rest)
  | 't' :: rest | '\t' :: rest => some ('\t', rest)
  | 'n' :: rest => some ('\n', rest)
  | 'v' :: rest => some ('\x0b', rest)
  | 'f' :: rest => some ('\x0c', rest)
  | 'r' :: rest => some ('\r', rest)
  | 'e' :: rest => some ('\x1b', rest)
  | ' ' :: rest => some (' ', rest)
  | '"' :: rest => some ('"', rest)
  | '\'' :: rest => some ('\'', rest)
  | '\\' :: rest => some ('\\', rest)
  | 'N' :: rest => some ('\u0085', rest)
  | '_' :: rest => some ('\u00a0', rest)
  | 'L' :: rest => some ('\u2028', rest)
  | 'P' :: rest => some ('\u2029', rest)
  | 'x' :: rest => hexChar 2 rest
  | 'u' :: rest => hexChar 4 rest
  | 'U' :: rest => hexChar 8 rest
  | _ => none

/-- A text after its opening quote. Only between double quotes a backslash escapes,
and one at the end of a line takes the line end away. `fuel` bounds the number of
characters. -/
def quotedAfter (quote : Char) : (fuel : Nat) → (done : List Char) → Find String
  | 0, _, _ => none
  | fuel + 1, done, cursor =>
      match cursor.rest with
      | [] => none
      | c :: rest =>
          if cursor.isDocumentMark then none
          else if c = quote then
            if quote = '\'' ∧ rest.head? = some '\'' then
              quotedAfter quote fuel (done ++ [quote]) (cursor.drop 2)
            else some (String.ofList done, cursor.drop 1)
          else if isBlank c || isLineEnd c then
            let blanks := cursor.rest.takeWhile isBlank
            let (count, next) := lineEnds (cursor.rest.length + 1) cursor
            let gap := if count = 0 then blanks else fold count
            quotedAfter quote fuel (done ++ gap) next
          else if c = '\\' ∧ quote = '"' then
            match (cursor.drop 1).nextLine? with
            | some next =>
                let (count, next) := lineEnds (rest.length + 1) next
                quotedAfter quote fuel (done ++ List.replicate count '\n') next
            | none =>
                match escape rest with
                | none => none
                | some (c, after) =>
                    quotedAfter quote fuel (done ++ [c])
                      ⟨after, cursor.column + 1 + (rest.length - after.length)⟩
          else quotedAfter quote fuel (done ++ [c]) (cursor.drop 1)

def quoted : Find String := fun cursor =>
  match cursor.rest with
  | '"' :: _ => quotedAfter '"' (cursor.rest.length + 1) [] (cursor.drop 1)
  | '\'' :: _ => quotedAfter '\'' (cursor.rest.length + 1) [] (cursor.drop 1)
  | _ => none

def based? (base : Nat) (digits : List Char) : Option Setting :=
  let isDigit (c : Char) : Bool := (hexDigit? c).any fun digit => digit < base
  let value := natOf base digits
  if digits ≠ [] ∧ digits.all isDigit ∧ value < 0x8000000000000000 then
    some (.integer value)
  else none

/-- What a text without quotes stands for. Numbers that are not finite cannot be
written with a point. -/
def resolve (text : String) : Option Setting :=
  let based := match text.toList with
    | '0' :: 'x' :: digits => based? 16 digits
    | '0' :: 'o' :: digits => based? 8 digits
    | _ => none
  match based, Numeral.integer? text, Numeral.real? text with
  | some value, _, _ => some value
  | none, some value, _ => some (.integer value)
  | none, none, some value => some (.real value)
  | none, none, none =>
      match text with
      | "" | "~" | "null" => some .nothing
      | "true" => some (.bool true)
      | "false" => some (.bool false)
      | _ =>
          if [".inf", "+.inf", "-.inf", ".nan"].contains text.toLower then none
          else some (.text text)

end FieldRules.Yaml

namespace FieldRules.Yaml

/-! Documents of one value, which has to be a mapping. Values are laid out by their
columns or stand between brackets. Anchors, tags, texts in blocks of their own and
keys that are not texts on one line are not read. -/

def nameOf (key : String) : String :=
  match resolve key with
  | some (.integer value) => toString value
  | _ => key

/-- A text with or without quotes as a key, if it is one. -/
def keyText (bracketed : Bool) : Find String := fun cursor =>
  match quoted cursor with
  | some found => some found
  | none => (plain bracketed 0 cursor).map fun (text, cursor) => (nameOf text, cursor)

/-- A key that stands on one line with a colon and a gap after it. -/
def key? : Find String := fun cursor => do
  let line := cursor.rest.takeWhile fun c => !isLineEnd c
  let (name, after) ← keyText false ⟨line, cursor.column⟩
  match (after.dropWhile isBlank).rest with
  | ':' :: rest =>
      if Cursor.isGap rest then some (name, cursor.drop (line.length - rest.length)) else none
  | _ => none

def isItem (cursor : Cursor) : Bool :=
  match cursor.rest with
  | '-' :: rest => Cursor.isGap rest && !cursor.isDocumentMark
  | _ => false

/-- Whether a value that has to start at a column of at least `least` is missing. -/
def isMissing (least : Nat) (cursor : Cursor) : Bool :=
  cursor.rest.isEmpty || cursor.isDocumentMark || cursor.column < least

/-! `fuel` bounds the number and depth of values. -/

mutual

/-- A value that does not depend on the columns of what is in it. -/
def flow (bracketed : Bool) (least : Nat) : (fuel : Nat) → Find Setting
  | 0, _ => none
  | fuel + 1, cursor =>
      match cursor.rest with
      | '[' :: _ => flowItems fuel [] (cursor.drop 1).toNextInside
      | '{' :: _ => flowEntries fuel [] (cursor.drop 1).toNextInside
      | '"' :: _ | '\'' :: _ =>
          (quoted cursor).map fun (text, cursor) => (.text text, cursor)
      | _ =>
          (plain bracketed least cursor).bind fun (text, cursor) =>
            (resolve text).map fun value => (value, cursor)

/-- The items between brackets; the last one may have a comma. -/
def flowItems : (fuel : Nat) → (done : List Setting) → Find Setting
  | 0, _, _ => none
  | fuel + 1, done, cursor =>
      match cursor.rest with
      | ']' :: _ => some (.list done.reverse, cursor.drop 1)
      | _ =>
          match flow true 0 fuel cursor with
          | none => none
          | some (item, cursor) =>
              let cursor := cursor.toNextInside
              match cursor.rest with
              | ',' :: _ => flowItems fuel (item :: done) (cursor.drop 1).toNextInside
              | ']' :: _ => some (.list (item :: done).reverse, cursor.drop 1)
              | _ => none

/-- The entries between braces; the last one may have a comma. -/
def flowEntries : (fuel : Nat) → (done : Entries Setting) → Find Setting
  | 0, _, _ => none
  | fuel + 1, done, cursor =>
      match cursor.rest with
      | '}' :: _ => some (.table done, cursor.drop 1)
      | _ =>
          match keyText true cursor with
          | none => none
          | some (name, cursor) =>
              match flowValue fuel cursor.toNextInside with
              | none => none
              | some (value, cursor) =>
                  let cursor := cursor.toNextInside
                  match cursor.rest with
                  | ',' :: _ =>
                      flowEntries fuel (done.put name value) (cursor.drop 1).toNextInside
                  | '}' :: _ => some (.table (done.put name value), cursor.drop 1)
                  | _ => none

/-- What follows a key between braces, if anything does. -/
def flowValue : (fuel : Nat) → Find Setting
  | 0, _ => none
  | fuel + 1, cursor =>
      match cursor.rest with
      | ':' :: _ =>
          let cursor := (cursor.drop 1).toNextInside
          match cursor.rest with
          | ',' :: _ | '}' :: _ => some (.nothing, cursor)
          | _ => flow true 0 fuel cursor
      | _ => some (.nothing, cursor)

end

def lineValue (least : Nat) (fuel : Nat) : Find Setting := fun cursor =>
  (flow false least fuel cursor).bind fun (value, cursor) =>
    if cursor.skipComment.isLineDone then some (value, cursor) else none

mutual

/-- A value laid out from a column of at least `least` on. -/
def node (least : Nat) : (fuel : Nat) → Find Setting
  | 0, _ => none
  | fuel + 1, cursor =>
      if isMissing least cursor then some (.nothing, cursor)
      else if isItem cursor then sequence cursor.column fuel [] cursor
      else if (key? cursor).isSome then mapping cursor.column fuel [] cursor
      else lineValue least fuel cursor

/-- The items from here on whose dashes stand in one column. -/
def sequence (column : Nat) : (fuel : Nat) → (done : List Setting) → Find Setting
  | 0, _, _ => none
  | fuel + 1, done, cursor =>
      let after := (cursor.drop 1).toNext
      match node (column + 1) fuel after with
      | none => none
      | some (item, cursor) =>
          let next := cursor.toNext
          if next.column = column ∧ isItem next then sequence column fuel (item :: done) next
          else some (.list (item :: done).reverse, next)

/-- The entries from here on whose keys stand in one column. A sequence may stand
in the column of its key. -/
def mapping (column : Nat) : (fuel : Nat) → (done : Entries Setting) → Find Setting
  | 0, _, _ => none
  | fuel + 1, done, cursor =>
      match key? cursor with
      | none => none
      | some (name, after) =>
          let next := after.toNext
          let found :=
            if after.skipComment.isLineDone then
              if next.column = column ∧ isItem next then sequence column fuel [] next
              else node (column + 1) fuel next
            else lineValue (column + 1) fuel (after.dropWhile isBlank)
          match found with
          | none => none
          | some (value, cursor) =>
              let next := cursor.toNext
              let done := done.put name value
              if isMissing column next then some (.table done, next)
              else if next.column = column then mapping column fuel done next
              else none

end

def document? (cursor : Cursor) : Option Setting := do
  let (value, cursor) ← node 0 (3 * cursor.rest.length + 3) cursor
  let next := cursor.toNext
  match next.rest with
  | [] => some value
  | '.' :: _ =>
      if next.isDocumentMark ∧ (next.drop 3).toNext.rest = [] then some value else none
  | _ => none

/-- The entries of a document; nothing if it is faulty. A text without anything in
it has no entries. -/
def parse? (text : String) : Option (List (String × Setting)) :=
  let start := (Cursor.mk text.toList 0).toNext
  if start.rest = [] then some []
  else
    let start := if start.isDocumentMark ∧ start.rest.head? = some '-' then (start.drop 3).toNext
      else start
    match document? start with
    | some (.table entries) => some entries
    | _ => none

end FieldRules.Yaml
