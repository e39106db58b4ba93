import FieldRules.Text

namespace FieldRules.Url.Punycode

/-! Labels of domain names that stand for other characters: a text of ASCII in which
distances between code points are written with digits of varying weight. -/

/-- Letters are the digits up to 25, whatever their case, and the others follow. -/
def digit? (c : Char) : Option Nat :=
  if c.isDigit then some (c.toNat - '0'.toNat + 26)
  else if c.isAlpha then some (c.toLower.toNat - 'a'.toNat)
  else none

/-- A digit below the threshold of its place ends a number. -/
def threshold (place bias : Nat) : Nat :=
  if place ≤ bias then 1 else if bias + 26 ≤ place then 26 else place - bias

/-- Divides a distance until it is small enough, counting places. -/
def reduce : (fuel : Nat) → (delta place : Nat) → Nat × Nat
  | 0, delta, place => (delta, place)
  | fuel + 1, delta, place =>
      if 455 < delta then reduce fuel (delta / 35) (place + 36) else (delta, place)

/-- The bias after a distance with which a text has come to have `length`
characters. -/
def adapted (delta length : Nat) (isFirst : Bool) : Nat :=
  let delta := if isFirst then delta / 700 else delta / 2
  let (delta, place) := reduce delta (delta + delta / length) 0
  place + 36 * delta / (delta + 38)

/-- A number of varying length, added to `sum`, and the digits after it. -/
def number? (bias : Nat) (place weight sum : Nat) : List Char → Option (Nat × List Char)
  | [] => none
  | c :: rest =>
      (digit? c).bind fun digit =>
        let sum := sum + digit * weight
        let limit := threshold place bias
        if digit < limit then some (sum, rest)
        else number? bias (place + 36) (weight * (36 - limit)) sum rest

/-- Puts in the characters that the digits give, each with its position. `fuel`
bounds their number. -/
def insertAll : (fuel : Nat) → (bias code position : Nat) → (text : List Char) → List Char →
    Option (List Char)
  | _, _, _, _, text, [] => some text
  | 0, _, _, _, _, _ => none
  | fuel + 1, bias, code, position, text, digits =>
      match number? bias 36 1 position digits with
      | none => none
      | some (sum, rest) =>
          let length := text.length + 1
          let code := code + sum / length
          if code < 0xD800 ∨ (0xDFFF < code ∧ code < 0x110000) then
            insertAll fuel (adapted (sum - position) length (position == 0)) code
              (sum % length + 1) (text.insertIdx (sum % length) (Char.ofNat code)) rest
          else none

/-- The text that a label stands for; what comes before the last hyphen stands for
itself. -/
def decode? (label : List Char) : Option (List Char) :=
  let digits := (label.reverse.takeWhile (· != '-')).reverse
  let plain := label.take (label.length - digits.length - 1)
  insertAll digits.length 72 128 0 plain digits

end FieldRules.Url.Punycode

namespace FieldRules.Url

open Text

inductive Fault
  | emptyHost
  | badDomain
  | badPort
  | badIpv4
  | badIpv6
  | badHostCharacter
  | relative
deriving DecidableEq

def Fault.message : Fault → String
  | .emptyHost => "empty host"
  | .badDomain => "invalid international domain name"
  | .badPort => "invalid port number"
  | .badIpv4 => "invalid IPv4 address"
  | .badIpv6 => "invalid IPv6 address"
  | .badHostCharacter => "invalid domain character"
  | .relative => "relative URL with a cannot-be-a-base base"

/-! Addresses of version 6: up to eight pieces of four digits, the last two perhaps
as an address of version 4; two colons stand for the pieces that are missing. -/

/-- A part of an address of version 4 at the end of one of version 6. -/
def isShortPart (part : String) : Bool :=
  let digits := part.toList
  digits.length ≤ 3 && isDigits digits && natOf 10 digits ≤ 255
    && (digits.length == 1 || digits.head? != some '0')
where
  isDigits (text : List Char) : Bool := !text.isEmpty && text.all Char.isDigit

def isComplete (count : Nat) (shortened : Bool) : Bool := shortened || count == 8

/-- The rest of an address after `count` pieces; `fuel` bounds their number. -/
def isIpv6From : (fuel : Nat) → (count : Nat) → (shortened : Bool) → List Char → Bool
  | _, count, shortened, [] => isComplete count shortened
  | 0, _, _, _ => false
  | fuel + 1, count, shortened, text =>
      if count = 8 then false
      else match text with
        | ':' :: rest => !shortened && isIpv6From fuel (count + 1) true rest
        | text =>
            let digits := (text.take 4).takeWhile isHexDigit
            match text.drop digits.length with
            | [] => isComplete (count + 1) shortened
            | [':'] => false
            | ':' :: rest => isIpv6From fuel (count + 1) shortened rest
            | '.' :: _ =>
                let parts := (String.ofList text).splitOn "."
                count ≤ 6 && parts.length == 4 && parts.all isShortPart
                  && isComplete (count + 2) shortened
            | _ => false

def isIpv6 (text : List Char) : Bool :=
  match text with
  | ':' :: ':' :: rest => isIpv6From (rest.length + 1) 1 true rest
  | ':' :: _ | [] | [_] => false
  | text => isIpv6From (text.length + 1) 0 false text

/-! A domain whose last part is a number is an address of version 4. -/

/-- The number that a part of an address is; its base shows at its start. -/
def ipv4Number? (part : String) : Option Nat :=
  let (base, digits) := match part.toList with
    | '0' :: 'x' :: rest | '0' :: 'X' :: rest => (16, rest)
    | '0' :: c :: rest => (8, c :: rest)
    | rest => (10, rest)
  let isDigit (c : Char) : Bool := (hexDigit? c).any fun digit => digit < base
  if part ≠ "" ∧ digits.all isDigit then some (natOf base digits) else none

/-- The parts of a domain; a point at its end does not count. -/
def domainParts (domain : String) : List String :=
  let parts := domain.splitOn "."
  if 1 < parts.length ∧ parts.getLast? = some "" then parts.dropLast else parts

def endsInNumber (domain : String) : Bool :=
  match (domainParts domain).getLast? with
  | some last =>
      last != "" && (last.toList.all Char.isDigit || (ipv4Number? last).isSome)
  | none => false

/-- The last part of an address fills the places of those that are missing. -/
def isIpv4 (domain : String) : Bool :=
  let parts := domainParts domain
  match parts.mapM ipv4Number? with
  | some numbers =>
      parts.length ≤ 4 && numbers.dropLast.all (· ≤ 255)
        && numbers.getLast?.any fun last => last < 0x100000000 >>> (8 * (parts.length - 1))
  | none => false

/-! Domains. -/

/-- The bytes of a text in which `%` and two digits stand for a byte. -/
def percentDecoded : List Char → List UInt8
  | '%' :: a :: b :: rest =>
      match hexDigit? a, hexDigit? b with
      | some a, some b => UInt8.ofNat (a * 16 + b) :: percentDecoded rest
      | _, _ => '%'.toNat.toUInt8 :: percentDecoded (a :: b :: rest)
  | c :: rest => (String.singleton c).toUTF8.toList ++ percentDecoded rest
  | [] => []

def hostMarks : List Char :=
  [' ', '#', '/', ':', '<', '>', '?', '@', '[', '\\', ']', '^', '|']

def isForbidden (c : Char) : Bool :=
  c.toNat < 0x20 || c.toNat == 0x7F || c == '%' || hostMarks.contains c

/-- A label that stands for other characters has to stand for at least one, and for
no controls. -/
def isLabel (label : String) : Bool :=
  match label.toList with
  | 'x' :: 'n' :: '-' :: '-' :: encoded =>
      match Punycode.decode? encoded with
      | some text =>
          let others := text.filter fun c => 0x7F < c.toNat
          !others.isEmpty && others.all fun c => 0x9F < c.toNat
      | none => false
  | _ => true

/-- What is wrong with a domain, if anything is. Of the processing of international domain
names only the lower case of ASCII letters and the decoding of labels are here. No other
character is mapped, ignored or refused by tables of code points, and labels are not
brought to a normal form or checked for joiners and direction of writing. So a domain that
only these steps would refuse, such as U+FFFD or U+00AD alone, has no fault here. -/
def domainFault? (text : List Char) : Option Fault :=
  match String.fromUTF8? (ByteArray.mk (percentDecoded text).toArray) with
  | none => some .badDomain
  | some domain =>
      let domain := domain.toLower
      if domain.toList.any isForbidden || !(domain.splitOn ".").all isLabel then some .badDomain
      else if domain = "" then some .emptyHost
      else if endsInNumber domain && !isIpv4 domain then some .badIpv4
      else none

/-- What is wrong with a host, if anything is. For schemes that are not known hosts
are no domains. -/
def hostFault? (known : Bool) (text : List Char) : Option Fault :=
  match text with
  | '[' :: rest =>
      if rest.getLast? = some ']' ∧ isIpv6 rest.dropLast then none else some .badIpv6
  | text =>
      if known then domainFault? text
      else if text.any fun c => c == '\x00' || hostMarks.contains c then some .badHostCharacter
      else none

end FieldRules.Url

namespace FieldRules.Url

/-- What decides how references are taken from a URL: its scheme, and whether its
path has no slash to start from. -/
structure Base where
  scheme : String
  rootless : Bool
deriving DecidableEq

/-! Schemes that are known have hosts that are domains; files are a kind of their
own. -/

inductive SchemeKind
  | known
  | file
  | other
deriving DecidableEq

def SchemeKind.ofScheme (scheme : String) : SchemeKind :=
  if scheme = "file" then .file
  else if ["http", "https", "ws", "wss", "ftp"].contains scheme then .known
  else .other

/-- A reference without the spaces and controls around it and the tabs and line ends
in it. -/
def cleaned (reference : String) : List Char :=
  let isEdge (c : Char) : Bool := c.toNat ≤ 0x20
  let inner := ((reference.toList.dropWhile isEdge).reverse.dropWhile isEdge).reverse
  inner.filter fun c => !(c == '\t' || c == '\n' || c == '\r')

/-- The scheme at the start of a reference, and what follows its colon. -/
def scheme? (text : List Char) : Option (String × List Char) :=
  let isSchemeChar (c : Char) : Bool := c.isAlphanum || c == '+' || c == '-' || c == '.'
  let run := text.takeWhile isSchemeChar
  match text.drop run.length with
  | ':' :: rest =>
      if run.head?.any Char.isAlpha then some ((String.ofList run).toLower, rest) else none
  | _ => none

def isSlash (c : Char) : Bool := c == '/' || c == '\\'

/-- The host at the start of a text, up to a colon outside brackets. -/
def hostText : (bracketed : Bool) → List Char → List Char
  | _, [] => []
  | bracketed, c :: rest =>
      if c = ':' ∧ !bracketed then []
      else c :: hostText (if c = '[' then true else if c = ']' then false else bracketed) rest

def portFault? (text : List Char) : Option Fault :=
  let digits := text.takeWhile Char.isDigit
  let continued := match text.drop digits.length with
    | [] => false
    | c :: _ => c != '\\'
  if continued || 65535 < Text.natOf 10 digits then some .badPort else none

/-- The last part of a text that `@` divides, and the part before if there is one. -/
def splitUser (text : List Char) : Option (List Char) × List Char :=
  let last := (text.reverse.takeWhile (· != '@')).reverse
  if last.length = text.length then (none, text)
  else (some (text.take (text.length - last.length - 1)), last)

/-- What is wrong with the part of a URL after two slashes, if anything is. It goes
up to the path, and has a user, a host and a port. -/
def authorityFault? (known : Bool) (text : List Char) : Option Fault :=
  let isEnd (c : Char) : Bool := c == '/' || c == '?' || c == '#' || (known && c == '\\')
  let whole := text.takeWhile fun c => !isEnd c
  let (user, rest) := splitUser whole
  let host := hostText false rest
  let afterHost := rest.drop host.length
  let hasUser := user.any fun user => !user.isEmpty && user != [':']
  if user = some [] ∧ rest = [] ∧ whole.length < text.length then some .emptyHost
  else if host = [] ∧ (known || !afterHost.isEmpty) then some .emptyHost
  else
    (hostFault? known host
      <|> (match afterHost with
        | ':' :: port => portFault? port
        | _ => none))
      <|> (if host = [] ∧ hasUser then some .emptyHost else none)

def fileFault? (text : List Char) : Option Fault :=
  match text with
  | a :: b :: rest =>
      if isSlash a ∧ isSlash b then
        match rest.takeWhile fun c => !(isSlash c || c == '?' || c == '#') with
        | [] => none
        | [drive, mark] =>
            if drive.isAlpha ∧ (mark = ':' ∨ mark = '|') then none
            else hostFault? true [drive, mark]
        | host => hostFault? true host
      else none
  | _ => none

def relativeFault? (kind : SchemeKind) (text : List Char) : Option Fault :=
  let slashes := text.takeWhile isSlash
  match kind, text with
  | .file, text => fileFault? text
  | kind, '/' :: '/' :: rest => authorityFault? (kind == .known) rest
  | kind, text =>
      if 2 ≤ slashes.length then authorityFault? (kind == .known) (text.drop slashes.length)
      else none

def absoluteFault? (base : Base) (scheme : String) (text : List Char) : Option Fault :=
  match SchemeKind.ofScheme scheme, text with
  | .file, text => fileFault? text
  | .known, text =>
      let slashes := text.takeWhile isSlash
      if slashes.length < 2 ∧ base.scheme = scheme then none
      else authorityFault? true (text.drop slashes.length)
  | .other, '/' :: '/' :: rest => authorityFault? false rest
  | .other, _ => none

/-- The URL that a reference gives, as a base for further ones. -/
def Base.resolve (base : Base) (reference : String) : Except Fault Base :=
  let text := cleaned reference
  match scheme? text with
  | some (scheme, rest) =>
      match absoluteFault? base scheme rest with
      | some fault => .error fault
      | none =>
          .ok ⟨scheme, SchemeKind.ofScheme scheme == .other && rest.head? != some '/'⟩
  | none =>
      if text.head? = some '#' then .ok base
      else if base.rootless then .error .relative
      else match relativeFault? (SchemeKind.ofScheme base.scheme) text with
        | some fault => .error fault
        | none => .ok base

end FieldRules.Url
