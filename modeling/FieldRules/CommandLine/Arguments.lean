namespace FieldRules.CommandLine

inductive Command
  | compile (file directory : Option String)
  | export (file : String)
  | check (file record : String)
  | config (init : Option String)
deriving DecidableEq

structure Arguments where
  settingsFile : Option String
  compact : Bool
  command : Command
deriving DecidableEq

inductive Invocation
  | run (arguments : Arguments)
  | version
  | help
  | misuse
deriving DecidableEq

/-! Arguments are taken in from left to right. An option that is given twice, a
value that is missing and a word too many are misuses; what is missing in the end
shows when all arguments are taken in. -/

inductive CommandName
  | compile
  | export
  | check
  | config
deriving DecidableEq

inductive OptionName
  | settingsFile
  | directory
  | init
deriving DecidableEq

namespace CommandName

def ofWord? : String → Option CommandName
  | "compile" => some .compile
  | "export" => some .export
  | "check" => some .check
  | "config" => some .config
  | _ => none

/-- Whether help is there on some topics: on the whole, on a command or on help
itself. -/
def isTopic : List String → Bool
  | [] => true
  | [word] => word == "help" || (ofWord? word).isSome
  | _ => false

def words : CommandName → Nat
  | .compile | .export => 1
  | .check => 2
  | .config => 0

end CommandName

/-- The arguments so far. Those for all commands may be given once before the
command and once after it, and the later one counts. All that follows the word
for help are topics. -/
structure Progress where
  command : Option CommandName := none
  settingsFile : Option String := none
  compact : Bool := false
  given : List OptionName := []
  compactGiven : Bool := false
  directory : Option String := none
  init : Option String := none
  words : List String := []
  pending : Option OptionName := none
  wordsOnly : Bool := false
  topics : Option (List String) := none

namespace Progress

def longOption? (progress : Progress) (name : String) : Option OptionName :=
  match name, progress.command with
  | "config", _ => some .settingsFile
  | "dir", some .compile => some .directory
  | "init", some .config => some .init
  | _, _ => none

def shortOption? (progress : Progress) (name : Char) : Option OptionName :=
  match name, progress.command with
  | 'c', _ => some .settingsFile
  | 'd', some .compile => some .directory
  | _, _ => none

def setOption (progress : Progress) (option : OptionName) (value : String) :
    Except Invocation Progress :=
  if progress.given.contains option then .error .misuse
  else
    let progress := { progress with given := option :: progress.given, pending := none }
    match option with
    | .settingsFile => .ok { progress with settingsFile := some value }
    | .directory =>
        if value = "" then .error .misuse
        else .ok { progress with directory := some value }
    | .init => .ok { progress with init := some value }

def setCompact (progress : Progress) : Except Invocation Progress :=
  if progress.compactGiven then .error .misuse
  else .ok { progress with compact := true, compactGiven := true }

def takeWord (progress : Progress) (word : String) : Except Invocation Progress :=
  match progress.command with
  | none =>
      if progress.wordsOnly then .error .misuse
      else match CommandName.ofWord? word with
        | some command =>
            .ok { progress with command := some command, given := [], compactGiven := false }
        | none =>
            if word = "help" then .ok { progress with topics := some [] }
            else .error .misuse
  | some command =>
      if word = "" ∨ command.words ≤ progress.words.length then .error .misuse
      else .ok { progress with words := progress.words ++ [word] }

def takeLong (progress : Progress) (argument : List Char) : Except Invocation Progress :=
  let name := String.ofList (argument.takeWhile (· != '='))
  let value : Option String := match argument.dropWhile (· != '=') with
    | [] => none
    | _ :: rest => some (String.ofList rest)
  match progress.longOption? name, value with
  | some option, some value => progress.setOption option value
  | some option, none => .ok { progress with pending := some option }
  | none, some _ => .error .misuse
  | none, none =>
      match name with
      | "compact" => progress.setCompact
      | "help" => .error .help
      | "version" => .error (if progress.command.isNone then .version else .misuse)
      | _ => .error .misuse

def takeShort (progress : Progress) (name : Char) (rest : List Char) :
    Except Invocation Progress :=
  match progress.shortOption? name, rest with
  | some option, [] => .ok { progress with pending := some option }
  | some option, '=' :: rest => progress.setOption option (String.ofList rest)
  | some option, rest => progress.setOption option (String.ofList rest)
  | none, _ =>
      match name with
      | 'h' => .error .help
      | 'V' => .error (if progress.command.isNone then .version else .misuse)
      | _ => .error .misuse

/-- Takes in one argument. A dash alone is a word. -/
def take (progress : Progress) (argument : String) : Except Invocation Progress :=
  let isWord := match argument.toList with
    | ['-'] => true
    | '-' :: _ => false
    | _ => true
  match progress.topics, progress.pending with
  | some topics, _ => .ok { progress with topics := some (topics ++ [argument]) }
  | none, some option =>
      if isWord then progress.setOption option argument else .error .misuse
  | none, none =>
      if progress.wordsOnly then progress.takeWord argument
      else match argument.toList with
        | ['-', '-'] => .ok { progress with wordsOnly := true }
        | '-' :: '-' :: rest => progress.takeLong rest
        | ['-'] => progress.takeWord argument
        | '-' :: name :: rest => progress.takeShort name rest
        | _ => progress.takeWord argument

def command? (progress : Progress) : Option Command :=
  match progress.command, progress.words with
  | some .compile, [] => some (.compile none progress.directory)
  | some .compile, [file] =>
      if progress.directory.isSome then none else some (.compile (some file) none)
  | some .export, [file] => some (.export file)
  | some .check, [file, record] => some (.check file record)
  | some .config, [] => some (.config progress.init)
  | _, _ => none

def finish (progress : Progress) : Invocation :=
  match progress.topics with
  | some topics => if CommandName.isTopic topics then .help else .misuse
  | none =>
      if progress.pending.isSome then .misuse
      else match progress.command? with
        | some command => .run ⟨progress.settingsFile, progress.compact, command⟩
        | none => .misuse

end Progress

def Invocation.ofArguments (arguments : List String) : Invocation :=
  match arguments.foldlM Progress.take {} with
  | .ok progress => progress.finish
  | .error invocation => invocation

end FieldRules.CommandLine
