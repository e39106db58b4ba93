import FieldRules.Settings.Setting
import FieldRules.Toml.Text

namespace FieldRules.Toml

/-- What a document has built up under a name: a value that is complete, a table
that may still grow, or a sequence of tables, the latest first. A table is
implicit until a header of its own names it; a dotted one came from a dotted
key. -/
inductive Node
  | value (value : Setting)
  | table (implicit dotted : Bool) (entries : List (String × Node))
  | tables (items : List Node)

namespace Node

instance : Inhabited Node := ⟨.tables []⟩

def opened : Node := .table false false []

/-- Changes the table at the end of a path; tables that are missing are made. A
dotted key does not reach into a table that has a header. -/
def descend (dotted : Bool) (change : Node → Option Node) : List String → Node → Option Node
  | [], node => change node
  | name :: rest, .table implicit own entries =>
      match (Entries.get? entries name).getD (.table true dotted []) with
      | .value _ => none
      | .tables [] => none
      | .tables (latest :: older) =>
          (descend dotted change rest latest).map fun node =>
            .table implicit own (Entries.put entries name (.tables (node :: older)))
      | .table childImplicit childOwn childEntries =>
          if dotted && !childImplicit then none
          else
            (descend dotted change rest (.table childImplicit childOwn childEntries)).map
              fun node => .table implicit own (Entries.put entries name node)
  | _ :: _, _ => none

def addValue (direct : Bool) (name : String) (value : Setting) : Node → Option Node
  | .table implicit dotted entries =>
      if dotted == direct || Entries.contains entries name then none
      else some (.table implicit dotted (Entries.put entries name (.value value)))
  | _ => none

def splitLast (path : List String) : Option (List String × String) :=
  path.getLast?.map fun last => (path.dropLast, last)

def insert (key : List String) (value : Setting) (node : Node) : Option Node := do
  let (path, name) ← splitLast key
  node.descend true (addValue path.isEmpty name value) path

/-- Opens a table by its header; each table has one header at most. -/
def openTable (key : List String) (node : Node) : Option Node := do
  let (path, name) ← splitLast key
  node.descend false (openHere name) path
where
  openHere (name : String) : Node → Option Node
    | .table implicit dotted entries =>
        match Entries.get? entries name with
        | none => some (.table implicit dotted (Entries.put entries name opened))
        | some (.table true false inner) =>
            some (.table implicit dotted (Entries.put entries name (.table false false inner)))
        | some _ => none
    | _ => none

def openNext (key : List String) (node : Node) : Option Node := do
  let (path, name) ← splitLast key
  node.descend false (openHere name) path
where
  openHere (name : String) : Node → Option Node
    | .table implicit dotted entries =>
        match Entries.get? entries name with
        | none => some (.table implicit dotted (Entries.put entries name (.tables [opened])))
        | some (.tables items) =>
            some (.table implicit dotted (Entries.put entries name (.tables (opened :: items))))
        | some _ => none
    | _ => none

mutual

def toSetting : Node → Setting
  | .value content => content
  | .table _ _ entries => .table (entriesToSettings entries)
  | .tables items => .list (itemsToSettings items).reverse

def entriesToSettings : List (String × Node) → List (String × Setting)
  | [] => []
  | (name, node) :: rest => (name, toSetting node) :: entriesToSettings rest

def itemsToSettings : List Node → List Setting
  | [] => []
  | node :: rest => toSetting node :: itemsToSettings rest

end

end Node

end FieldRules.Toml

namespace FieldRules.Toml

open Text

/-! Documents of keys and values in tables. -/

def isBareKeyChar (c : Char) : Bool := c.isAlphanum || c == '_' || c == '-'

def simpleKey : Scan String := fun text =>
  match text.takeWhile isBareKeyChar with
  | [] => quotedText false text
  | bare => some (String.ofList bare, text.drop bare.length)

def moreKeys : (fuel : Nat) → (done : List String) → Scan (List String)
  | 0, _, _ => none
  | fuel + 1, done, text =>
      match skipBlanks text with
      | '.' :: rest =>
          (simpleKey (skipBlanks rest)).bind fun (name, rest) =>
            moreKeys fuel (name :: done) rest
      | rest => some (done.reverse, rest)

/-- Keys have no more names, and values no more levels, than this. -/
def greatestDepth : Nat := 79

def key : Scan (List String) := fun text => do
  let (name, rest) ← simpleKey (skipBlanks text)
  let (names, rest) ← moreKeys (rest.length + 1) [name] rest
  if names.length ≤ greatestDepth then some (names, rest) else none

/-- Digits with single underscores between them, without the underscores. -/
def digits? (isDigit : Char → Bool) (text : List Char) : Option (List Char) :=
  let groups := (String.ofList text).splitOn "_"
  if groups.all fun group => group != "" && group.all isDigit then
    some (text.filter (· != '_'))
  else none

def signed64? (negative : Bool) (size : Nat) : Option Setting :=
  let value : Int := if negative then -(size : Int) else size
  if -0x8000000000000000 ≤ value ∧ value < 0x8000000000000000 then some (.integer value)
  else none

/-- The whole part of a numeral has no needless zero at its start. -/
def wholePart? (text : List Char) : Option (List Char) :=
  match digits? Char.isDigit text with
  | some ('0' :: _ :: _) => none
  | other => other

def fractional? (negative : Bool) (text : List Char) : Option Setting := do
  let isMark (c : Char) : Bool := c == 'e' || c == 'E'
  let mantissa := text.takeWhile fun c => !isMark c
  let exponentText := text.drop mantissa.length
  let wholeText := mantissa.takeWhile (· != '.')
  let whole ← wholePart? wholeText
  let fraction ← match mantissa.drop wholeText.length with
    | [] => some []
    | _ :: rest => digits? Char.isDigit rest
  let exponent : Int ← match exponentText with
    | [] => some 0
    | _ :: rest => do
        let (negative, rest) := Numeral.sign rest
        let size : Int := natOf 10 (← digits? Char.isDigit rest)
        some (if negative then -size else size)
  match Real64.ofNumeral negative whole fraction exponent with
  | .infinite false => none
  | value => some (.real value)

def bareValue? (word : String) : Option Setting :=
  match word with
  | "true" => some (.bool true)
  | "false" => some (.bool false)
  | word =>
      match word.toList with
      | '0' :: 'x' :: rest =>
          (digits? isHexDigit rest).bind fun digits =>
            signed64? false (natOf 16 digits)
      | '0' :: 'o' :: rest =>
          (digits? (fun c => '0' ≤ c && c ≤ '7') rest).bind fun digits =>
            signed64? false (natOf 8 digits)
      | '0' :: 'b' :: rest =>
          (digits? (fun c => c == '0' || c == '1') rest).bind fun digits =>
            signed64? false (natOf 2 digits)
      | chars =>
          let (negative, rest) := Numeral.sign chars
          match String.ofList rest with
          | "inf" => some (.real (.infinite negative))
          | "nan" => some (.real .undefined)
          | _ =>
              if rest.any fun c => c == '.' || c == 'e' || c == 'E' then
                fractional? negative rest
              else (wholePart? rest).bind fun digits => signed64? negative (natOf 10 digits)

def isWordChar (c : Char) : Bool :=
  c.isAlphanum || c == '_' || c == '+' || c == '-' || c == '.'

/-! Arrays and inline tables hold values. `fuel` bounds their number and size, and
there is room for `room` levels of them. -/

mutual

def value : (fuel room : Nat) → Scan Setting
  | 0, _, _ => none
  | fuel + 1, room, text =>
      match text, room with
      | '[' :: _, 0 | '{' :: _, 0 => none
      | '[' :: rest, room + 1 => arrayItems fuel room [] (skipLines rest.length rest)
      | '{' :: rest, room + 1 =>
          match skipBlanks rest with
          | '}' :: rest => some (.table [], rest)
          | rest => inlineEntries fuel room .opened rest
      | '"' :: _, _ | '\'' :: _, _ =>
          (quotedText true text).map fun (content, rest) => (.text content, rest)
      | text, _ =>
          match moment text with
          | some (content, rest) => some (.text content, rest)
          | none =>
              let word := text.takeWhile isWordChar
              (bareValue? (String.ofList word)).map fun value => (value, text.drop word.length)

/-- The items of an array and its end; the last item may have a comma. -/
def arrayItems : (fuel room : Nat) → (done : List Setting) → Scan Setting
  | 0, _, _, _ => none
  | fuel + 1, room, done, text =>
      match text with
      | ']' :: rest => some (.list done.reverse, rest)
      | text =>
          match value fuel room text with
          | none => none
          | some (item, rest) =>
              match skipLines rest.length rest with
              | ',' :: rest => arrayItems fuel room (item :: done) (skipLines rest.length rest)
              | ']' :: rest => some (.list (item :: done).reverse, rest)
              | _ => none

def inlineEntries : (fuel room : Nat) → Node → Scan Setting
  | 0, _, _, _ => none
  | fuel + 1, room, node, text =>
      match key text with
      | some (names, '=' :: rest) =>
          match value fuel room (skipBlanks rest) with
          | none => none
          | some (item, rest) =>
              match node.insert names item with
              | none => none
              | some node =>
                  match skipBlanks rest with
                  | ',' :: rest => inlineEntries fuel room node rest
                  | '}' :: rest => some (node.toSetting, rest)
                  | _ => none
      | _ => none

end

/-- A document so far, with the path of the table that keys go into. -/
structure Progress where
  root : Node
  current : List String

def header? (marks : List Char) (text : List Char) : Option (List String × List Char) := do
  let (names, rest) ← key text
  if rest.take marks.length = marks then some (names, rest.drop marks.length) else none

def line (progress : Progress) : Scan Progress
  | '[' :: '[' :: rest => do
      let (names, rest) ← header? [']', ']'] rest
      return (⟨← progress.root.openNext names, names⟩, rest)
  | '[' :: rest => do
      let (names, rest) ← header? [']'] rest
      return (⟨← progress.root.openTable names, names⟩, rest)
  | text =>
      match key text with
      | some (names, '=' :: rest) => do
          let rest := skipBlanks rest
          let (item, rest) ← value (rest.length + 1) greatestDepth rest
          let root ← progress.root.descend false (Node.insert names item) progress.current
          return ({ progress with root }, rest)
      | _ => none

def lines : (fuel : Nat) → Progress → List Char → Option Node
  | 0, _, _ => none
  | fuel + 1, progress, text =>
      match skipLines text.length text with
      | [] => some progress.root
      | text =>
          match line progress text with
          | none => none
          | some (progress, rest) =>
              match skipComment rest with
              | [] => some progress.root
              | rest =>
                  match lineEnd? rest with
                  | some rest => lines fuel progress rest
                  | none => none

/-- A byte order mark at the start of a document does not count. -/
def afterMark : List Char → List Char
  | '\uFEFF' :: rest => rest
  | text => text

def parse? (text : String) : Option (List (String × Setting)) :=
  (lines (text.length + 1) ⟨.opened, []⟩ (afterMark text.toList)).map fun root =>
    root.toSetting.entries

end FieldRules.Toml
