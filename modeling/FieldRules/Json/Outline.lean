import FieldRules.Json.Basic
import FieldRules.Text

namespace FieldRules.Json

/-- What is wrong with the text of a document, at the first place where it is. -/
inductive Fault
  | endInValue
  | endInWord
  | endInObject
  | endInList
  | endInString
  | valueExpected
  | wordExpected
  | nameExpected
  | colonExpected
  | memberEndExpected
  | itemEndExpected
  | trailingComma
  | trailingCharacters
  | badNumber
  | numberTooLarge
  | badEscape
  | loneSurrogate
  | unfinishedSurrogate
  | controlCharacter
  | tooDeep
deriving DecidableEq

namespace Fault

def isEnd : Fault → Bool
  | .endInValue | .endInWord | .endInObject | .endInList | .endInString => true
  | _ => false

def message : Fault → String
  | .endInValue | .endInWord => "EOF while parsing a value"
  | .endInObject => "EOF while parsing an object"
  | .endInList => "EOF while parsing a list"
  | .endInString => "EOF while parsing a string"
  | .valueExpected => "expected value"
  | .wordExpected => "expected ident"
  | .nameExpected => "key must be a string"
  | .colonExpected => "expected `:`"
  | .memberEndExpected => "expected `,` or `\x7d`"
  | .itemEndExpected => "expected `,` or `]`"
  | .trailingComma => "trailing comma"
  | .trailingCharacters => "trailing characters"
  | .badNumber => "invalid number"
  | .numberTooLarge => "number out of range"
  | .badEscape => "invalid escape"
  | .loneSurrogate => "lone leading surrogate in hex escape"
  | .unfinishedSurrogate => "unexpected end of hex escape"
  | .controlCharacter => "control character (\\u0000-\\u001F) found while parsing a string"
  | .tooDeep => "recursion limit exceeded"

end Fault

/-- A place that cannot be read. A reader that needs the value stops with `read`.
A reader that only passes over it stops with `skipped`, or goes on if there is
none. -/
structure Flaw where
  read : Fault
  skipped : Option Fault
deriving DecidableEq

namespace Flaw

/-- A fault that nobody gets past. -/
def fatal (fault : Fault) : Flaw := ⟨fault, some fault⟩

/-- A fault of the value only, not of its extent. -/
def passable (fault : Fault) : Flaw := ⟨fault, none⟩

end Flaw

end FieldRules.Json

namespace FieldRules.Json

open Text

/-- A word of a document's text. A flaw that nobody gets past ends the words. -/
inductive Token
  | openList
  | closeList
  | openObject
  | closeObject
  | comma
  | colon
  | null
  | bool (value : Bool)
  | number (value : Number)
  | string (value : String)
  | badString (flaw : Flaw)
  | bad (flaw : Flaw)
deriving DecidableEq

namespace Token

/-! Each scanner gets the characters from the start of a word and says how many
of them belong to it. -/

def isBlank (c : Char) : Bool := c == ' ' || c == '\n' || c == '\t' || c == '\r'

/-- The rest of a word such as `true` after its first letter. -/
def scanWord (token : Token) : (expected remaining : List Char) → Token
  | [], _ => token
  | _ :: _, [] => .bad (.fatal .endInWord)
  | e :: expected, c :: remaining =>
      if c = e then scanWord token expected remaining else .bad (.fatal .wordExpected)

/-- Digits are missing: at the end of the text a reader reports the end. -/
private def missingDigits : List Char → Token
  | [] => .bad ⟨.endInWord, some .badNumber⟩
  | _ => .bad (.fatal .badNumber)

private def natOfDigits (digits : List Char) : Nat :=
  digits.foldl (fun n c => n * 10 + (c.toNat - '0'.toNat)) 0

/-- The exponent after its mark, with the characters it takes. -/
def scanExponent (text : List Char) : Except Token (Int × Nat) :=
  let (negative, digits, sign) := match text with
    | '+' :: rest => (false, rest, 1)
    | '-' :: rest => (true, rest, 1)
    | rest => (false, rest, 0)
  match digits.takeWhile Char.isDigit with
  | [] => .error (missingDigits digits)
  | run =>
      let value : Int := natOfDigits run
      .ok (if negative then -value else value, sign + run.length)

def scanNumber (negative : Bool) (numeral : List Char) : Token × Nat :=
  let run := numeral.takeWhile Char.isDigit
  match run with
  | [] => (missingDigits numeral, 0)
  | '0' :: _ :: _ => (.bad (.fatal .badNumber), 0)
  | _ =>
      let rest := numeral.drop run.length
      let fraction : Except Token (Option (List Char) × Nat) := match rest with
        | '.' :: rest =>
            match rest.takeWhile Char.isDigit with
            | [] => .error (missingDigits rest)
            | digits => .ok (some digits, digits.length + 1)
        | _ => .ok (none, 0)
      match fraction with
      | .error token => (token, 0)
      | .ok (fraction, fractionLength) =>
          let rest := rest.drop fractionLength
          let exponent : Except Token (Option Int × Nat) := match rest with
            | 'e' :: rest | 'E' :: rest =>
                (scanExponent rest).map fun (value, length) => (some value, length + 1)
            | _ => .ok (none, 0)
          match exponent with
          | .error token => (token, 0)
          | .ok (exponent, exponentLength) =>
              let token := match Number.ofNumeral? ⟨negative, run, fraction, exponent⟩ with
                | some value => .number value
                | none => .bad (.passable .numberTooLarge)
              (token, run.length + fractionLength + exponentLength)

def unit? (a b c d : Char) : Option Nat := do
  return (← hexDigit? a) * 4096 + (← hexDigit? b) * 256 + (← hexDigit? c) * 16
    + (← hexDigit? d)

/-- An escape of four digits is cut short only if fewer than four bytes follow. -/
private def badUnit (text : List Char) : Fault :=
  if (String.ofList text).utf8ByteSize < 4 then .endInString else .badEscape

private def simpleEscape? : Char → Option Char
  | '"' => some '"'
  | '\\' => some '\\'
  | '/' => some '/'
  | 'b' => some '\x08'
  | 'f' => some '\x0c'
  | 'n' => some '\n'
  | 'r' => some '\r'
  | 't' => some '\t'
  | _ => none

private def lowEscape? : List Char → Option Nat
  | '\\' :: 'u' :: a :: b :: c :: d :: _ => (unit? a b c d).filter isLowUnit
  | _ => none

/-- What a reader finds wrong after a high surrogate whose partner is not a
well-formed escape of a low one. A partner that is cut short or badly written is
a fault of its own. -/
private def afterHigh : List Char → Option Fault
  | [] | ['\\'] => none
  | '\\' :: 'u' :: a :: b :: c :: d :: _ =>
      if (unit? a b c d).isSome then some .loneSurrogate else none
  | '\\' :: 'u' :: _ => none
  | _ => some .unfinishedSurrogate

/-- A text after its opening quote. `wrong` is the first fault of its surrogates,
which only a reader reports. -/
def scanText (wrong : Option Fault) (done : List Char) (length : Nat)
    (remaining : List Char) : Token × Nat :=
  match remaining with
  | [] => fatal .endInString
  | '"' :: _ =>
      match wrong with
      | none => (.string (String.ofList done.reverse), length + 1)
      | some fault => (.badString (.passable fault), length + 1)
  | ['\\'] => fatal .endInString
  | '\\' :: 'u' :: a :: b :: c :: d :: rest =>
      match unit? a b c d with
      | none => fatal .badEscape
      | some unit =>
          if isLowUnit unit then
            scanText (wrong <|> some .loneSurrogate) done (length + 6) rest
          else if isHighUnit unit then
            match lowEscape? rest with
            | some low => scanText wrong (joinUnits unit low :: done) (length + 12) (rest.drop 6)
            | none => scanText (wrong <|> afterHigh rest) done (length + 6) rest
          else scanText wrong (Char.ofNat unit :: done) (length + 6) rest
  | '\\' :: 'u' :: rest => fatal (badUnit rest)
  | '\\' :: c :: rest =>
      match simpleEscape? c with
      | some plain => scanText wrong (plain :: done) (length + 2) rest
      | none => fatal .badEscape
  | c :: rest =>
      if c.toNat < 0x20 then fatal .controlCharacter
      else scanText wrong (c :: done) (length + 1) rest
termination_by remaining.length
decreasing_by all_goals simp only [List.length_cons, List.length_drop]; omega
where
  fatal (fault : Fault) : Token × Nat := (.badString ⟨wrong.getD fault, some fault⟩, length)

/-- The word that starts with `c`, and how many of the characters that follow
belong to it. -/
def scan (c : Char) (following : List Char) : Token × Nat :=
  match c with
  | '[' => (.openList, 0)
  | ']' => (.closeList, 0)
  | '{' => (.openObject, 0)
  | '}' => (.closeObject, 0)
  | ',' => (.comma, 0)
  | ':' => (.colon, 0)
  | 'n' => (scanWord .null ['u', 'l', 'l'] following, 3)
  | 't' => (scanWord (.bool true) ['r', 'u', 'e'] following, 3)
  | 'f' => (scanWord (.bool false) ['a', 'l', 's', 'e'] following, 4)
  | '"' => scanText none [] 0 following
  | '-' => scanNumber true following
  | c =>
      if c.isDigit then
        let (token, length) := scanNumber false (c :: following)
        (token, length - 1)
      else (.bad (.fatal .valueExpected), 0)

/-- Whether the words end here because the text cannot be divided any further. -/
def isLast : Token → Bool
  | .bad flaw | .badString flaw => flaw.skipped.isSome
  | _ => false

/-- The words of a text; `covered` characters still belong to the last one. -/
def scanAll (covered : Nat) : List Char → List Token
  | [] => []
  | c :: text =>
      match covered with
      | more + 1 => scanAll more text
      | 0 =>
          if isBlank c then scanAll 0 text else
            let (token, length) := scan c text
            if token.isLast then [token] else token :: scanAll length text

end Token

def tokens (text : String) : List Token := Token.scanAll 0 text.toList

end FieldRules.Json

namespace FieldRules.Json

inductive MemberName
  | known (name : String)
  | flawed (flaw : Flaw)
deriving DecidableEq

/-- What a text says, as far as it can be made out. Where the text goes wrong for
good, a flawed part stands last in everything that is still open, so going
through an outline in order meets the first fault of the text first. -/
inductive Outline
  | null
  | bool (value : Bool)
  | number (value : Number)
  | string (value : String)
  | list (items : List Outline)
  | object (members : List (MemberName × Outline))
  | flawed (flaw : Flaw)

namespace Outline

instance : Inhabited Outline := ⟨.null⟩

/-! Outlining a text keeps the containers that are still open on a stack, the
innermost first, and moves by one word at a time. -/

/-- A container that is still open, with its parts in reverse. -/
inductive Frame
  | list (items : List Outline)
  | object (members : List (MemberName × Outline)) (name : MemberName)

inductive Stage
  | value
  | firstItem
  | nextItem
  | itemEnd
  | firstMember
  | nextMember
  | colon
  | memberEnd

inductive Progress
  | going (frames : List Frame) (stage : Stage)
  | finished (outline : Outline)

def place (value : Outline) : List Frame → Progress
  | [] => .finished value
  | .list items :: frames => .going (.list (value :: items) :: frames) .itemEnd
  | .object members name :: frames =>
      .going (.object ((name, value) :: members) name :: frames) .memberEnd

def closeAll (value : Outline) : List Frame → Outline
  | [] => value
  | .list items :: frames => closeAll (.list (value :: items).reverse) frames
  | .object members name :: frames =>
      closeAll (.object ((name, value) :: members).reverse) frames

/-- The outline of a text that goes wrong where a value or the end of a list is
due. -/
def stopAtValue (flaw : Flaw) (frames : List Frame) : Outline :=
  closeAll (.flawed flaw) frames

/-- The outline of a text that goes wrong where a member or the end of an object
is due; `instead` is what stands there, taken for a value. -/
def stopAtName (flaw : Flaw) (instead : Outline) : List Frame → Outline
  | .object members _ :: frames =>
      closeAll (.object ((.flawed flaw, instead) :: members).reverse) frames
  | frames => stopAtValue flaw frames

def beginning : Token → Outline
  | .openList => .list []
  | .openObject => .object []
  | .null => .null
  | .bool value => .bool value
  | .number value => .number value
  | .string value => .string value
  | .bad flaw | .badString flaw => .flawed flaw
  | .closeList | .closeObject | .comma | .colon => .flawed (.fatal .valueExpected)

def close : List Frame → Progress
  | .list items :: frames => place (.list items.reverse) frames
  | .object members _ :: frames => place (.object members.reverse) frames
  | [] => .finished .null

def advanceValue (frames : List Frame) : Token → Progress
  | .openList => .going (.list [] :: frames) .firstItem
  | .openObject => .going (.object [] (.known "") :: frames) .firstMember
  | .null => place .null frames
  | .bool value => place (.bool value) frames
  | .number value => place (.number value) frames
  | .string value => place (.string value) frames
  | .bad flaw | .badString flaw =>
      match flaw.skipped with
      | none => place (.flawed flaw) frames
      | some _ => .finished (stopAtValue flaw frames)
  | .closeList | .closeObject | .comma | .colon =>
      .finished (stopAtValue (.fatal .valueExpected) frames)

def nameMember (name : MemberName) : List Frame → Progress
  | .object members _ :: frames => .going (.object members name :: frames) .colon
  | frames => .going frames .colon

def advanceName (frames : List Frame) : Token → Progress
  | .string name => nameMember (.known name) frames
  | .badString flaw =>
      match flaw.skipped with
      | none => nameMember (.flawed flaw) frames
      | some _ => .finished (stopAtName flaw (.flawed flaw) frames)
  | token => .finished (stopAtName (.fatal .nameExpected) (beginning token) frames)

def advance (frames : List Frame) : Stage → Token → Progress
  | .value, token => advanceValue frames token
  | .firstItem, .closeList => close frames
  | .firstItem, token => advanceValue frames token
  | .nextItem, .closeList =>
      .finished (stopAtValue ⟨.trailingComma, some .valueExpected⟩ frames)
  | .nextItem, token => advanceValue frames token
  | .itemEnd, .comma => .going frames .nextItem
  | .itemEnd, .closeList => close frames
  | .itemEnd, _ => .finished (stopAtValue (.fatal .itemEndExpected) frames)
  | .firstMember, .closeObject => close frames
  | .firstMember, token => advanceName frames token
  | .nextMember, .closeObject =>
      .finished
        (stopAtName ⟨.trailingComma, some .nameExpected⟩ (beginning .closeObject) frames)
  | .nextMember, token => advanceName frames token
  | .colon, .colon => .going frames .value
  | .colon, _ => .finished (stopAtValue (.fatal .colonExpected) frames)
  | .memberEnd, .comma => .going frames .nextMember
  | .memberEnd, .closeObject => close frames
  | .memberEnd, token =>
      .finished (stopAtName (.fatal .memberEndExpected) (beginning token) frames)

def endAt (frames : List Frame) : Stage → Outline
  | .value | .nextItem => stopAtValue (.fatal .endInValue) frames
  | .firstItem | .itemEnd => stopAtValue (.fatal .endInList) frames
  | .firstMember | .memberEnd =>
      stopAtName (.fatal .endInObject) (.flawed (.fatal .endInValue)) frames
  | .nextMember =>
      stopAtName ⟨.endInValue, some .endInObject⟩ (.flawed (.fatal .endInValue)) frames
  | .colon => stopAtValue (.fatal .endInObject) frames

/-- The value at the start of the words, and the words after it. -/
def run (frames : List Frame) (stage : Stage) : List Token → Outline × List Token
  | [] => (endAt frames stage, [])
  | token :: rest =>
      match advance frames stage token with
      | .going frames stage => run frames stage rest
      | .finished outline => (outline, rest)

/-- The outline of a text, and whether something follows the value. -/
def ofText (text : String) : Outline × Bool :=
  let (outline, rest) := run [] .value (tokens text)
  (outline, !rest.isEmpty)

/-! A reader that takes a value as a whole meets its first fault, counting as one
too many levels of containers; a reader that passes over it meets fewer. -/

mutual

/-- The first fault of a value that is read with room for `room` levels. -/
def fault? (room : Nat) : Outline → Option Fault
  | .list items =>
      match room with
      | 0 => some .tooDeep
      | room + 1 => itemsFault? room items
  | .object members =>
      match room with
      | 0 => some .tooDeep
      | room + 1 => membersFault? room members
  | .flawed flaw => some flaw.read
  | _ => none

def itemsFault? (room : Nat) : List Outline → Option Fault
  | [] => none
  | item :: rest => fault? room item <|> itemsFault? room rest

def membersFault? (room : Nat) : List (MemberName × Outline) → Option Fault
  | [] => none
  | (.flawed flaw, _) :: _ => some flaw.read
  | (.known _, value) :: rest => fault? room value <|> membersFault? room rest

end

mutual

/-- The first fault that stops a reader that passes over a value. -/
def skipFault? : Outline → Option Fault
  | .list items => skipItemsFault? items
  | .object members => skipMembersFault? members
  | .flawed flaw => flaw.skipped
  | _ => none

def skipItemsFault? : List Outline → Option Fault
  | [] => none
  | item :: rest => skipFault? item <|> skipItemsFault? rest

def skipMembersFault? : List (MemberName × Outline) → Option Fault
  | [] => none
  | (.known _, value) :: rest => skipFault? value <|> skipMembersFault? rest
  | (.flawed flaw, value) :: rest =>
      flaw.skipped <|> skipFault? value <|> skipMembersFault? rest

end

mutual

/-- The value of an outline without faults, members as they stand. -/
def toJson : Outline → Json
  | .null => .null
  | .bool value => .bool value
  | .number value => .number value
  | .string value => .string value
  | .list items => .array (itemsToJson items)
  | .object members => .object (membersToJson members)
  | .flawed _ => .null

def itemsToJson : List Outline → List Json
  | [] => []
  | item :: rest => toJson item :: itemsToJson rest

def membersToJson : List (MemberName × Outline) → List (String × Json)
  | [] => []
  | (.known name, value) :: rest => (name, toJson value) :: membersToJson rest
  | (.flawed _, _) :: rest => membersToJson rest

end

mutual

def ofJson : Json → Outline
  | .null => .null
  | .bool value => .bool value
  | .number value => .number value
  | .string value => .string value
  | .array items => .list (itemsOfJson items)
  | .object members => .object (membersOfJson members)

def itemsOfJson : List Json → List Outline
  | [] => []
  | item :: rest => ofJson item :: itemsOfJson rest

def membersOfJson : List (String × Json) → List (MemberName × Outline)
  | [] => []
  | (name, value) :: rest => (.known name, ofJson value) :: membersOfJson rest

end

end Outline

end FieldRules.Json
