import FieldRules.Reading
import FieldRules.Settings.Setting
import FieldRules.Toml.Text

namespace FieldRules

inductive OutputFormat
  | pretty
  | compact
deriving DecidableEq

structure Settings where
  format : OutputFormat := .pretty
  modelsDir : Option String := none
  includeExtensions : Bool := true
deriving DecidableEq

namespace OutputFormat

def all : List OutputFormat := [.pretty, .compact]

def name : OutputFormat → String
  | .pretty => "pretty"
  | .compact => "compact"

def ofName? (name : String) : Option OutputFormat := all.find? fun format => format.name == name

def render (format : OutputFormat) (value : Json) : String :=
  match format with
  | .pretty => value.pretty
  | .compact => value.compact

end OutputFormat

namespace Settings

/-- The settings that a user changes in a file of their own. -/
def toJson (settings : Settings) : Json :=
  .object [
    ("output", .object [("format", .string settings.format.name)]),
    ("models", .object [("dir", (settings.modelsDir.map Json.string).getD .null)]),
    ("export", .object [("include_extensions", .bool settings.includeExtensions)])]

/-- The settings as a file that can be read back; a directory that is not set is
left out. -/
def toToml (settings : Settings) : String :=
  "[output]\nformat = \"" ++ settings.format.name ++ "\"\n\n[models]\n"
    ++ (match settings.modelsDir with
      | none => ""
      | some dir => "dir = " ++ Toml.quote dir ++ "\n")
    ++ "\n[export]\ninclude_extensions = "
    ++ (if settings.includeExtensions then "true" else "false") ++ "\n"

def readFormat (section? : Setting) : Option OutputFormat := do
  match ← section?.part? 0 "format" with
  | none => some .pretty
  | some setting =>
      OutputFormat.ofName? (← setting.toWord? (OutputFormat.all.map OutputFormat.name))

def readDir (section? : Setting) : Option (Option String) := do
  match ← section?.part? 0 "dir" with
  | none | some .nothing => some none
  | some setting => setting.toText?.map some

def readExtensions (section? : Setting) : Option Bool := do
  match ← section?.part? 0 "include_extensions" with
  | none => some true
  | some setting => setting.toFlag?

/-- A section that is missing leaves its settings at their defaults. -/
def readSection (whole : Setting) (place : Nat) (name : String) (default : α)
    (read : Setting → Option α) : Option α := do
  match ← whole.part? place name with
  | none => some default
  | some section? => read section?

/-- The settings that the merged layers give; nothing if one of them cannot be
taken for what it should be. -/
def ofSetting? (whole : Setting) : Option Settings := do
  return {
    format := ← readSection whole 0 "output" .pretty readFormat
    modelsDir := ← readSection whole 1 "models" none readDir
    includeExtensions := ← readSection whole 2 "export" true readExtensions }

end Settings

end FieldRules

namespace FieldRules

open Json Reading

/-! Settings as a document of their own, which is read like any other: names
count with regard to case, and values are not converted. -/

namespace OutputFormat

def readName : Outline → Except ReadError OutputFormat
  | .string name =>
      match ofName? name with
      | some format => .ok format
      | none => .error (.unknownVariant name (all.map OutputFormat.name))
  | other => .error (other.refuse "variant identifier")

def readUnit : Outline → Except ReadError Unit
  | .null => .ok ()
  | other => .error (other.refuse "unit")

/-- What follows the only member of an object: its end is due. -/
def readEnd : List (MemberName × Outline) → Except ReadError Unit
  | [] => .ok ()
  | (.flawed ⟨.endInObject, _⟩, _) :: _ => .error (.fault .endInObject)
  | _ => .error (.fault .valueExpected)

/-- A format is its name, or an object with the name as its only member and no
value. -/
def read (scope : Scope) : Outline → Except ReadError OutputFormat
  | .string name => readName (.string name)
  | .object [] =>
      Outline.enter scope fun _ => .error (.fault .valueExpected)
  | .object ((name, outline) :: rest) =>
      Outline.enter scope fun _ => do
        let format ← readName (.string (← Outline.readName name))
        readUnit outline
        readEnd rest
        return format
  | .flawed ⟨.badNumber, _⟩ | .flawed ⟨.numberTooLarge, _⟩ | .flawed ⟨.wordExpected, _⟩
  | .flawed ⟨.endInWord, _⟩ =>
      .error (.fault .valueExpected)
  | .flawed flaw => .error (.fault flaw.read)
  | _ => .error (.fault .valueExpected)

def ofValue : Json → Except ReadError OutputFormat
  | .string name => readName (.string name)
  | .object [(name, value)] => do
      let format ← readName (.string name)
      readUnit (Outline.ofJson value)
      return format
  | .object _ => .error (.wrongValue .object "map with a single key")
  | other => .error ((Outline.ofJson other).refuse "string or map")

end OutputFormat

namespace Settings

private def outputLayout : Layout OutputFormat where
  title := "struct OutputConfig"
  blank := .pretty
  strict := false
  members := [⟨"format", false, fun scope o _ => OutputFormat.read scope o⟩]

private def modelsLayout : Layout (Option String) where
  title := "struct ModelsConfig"
  blank := none
  strict := false
  members := [⟨"dir", false, fun _ o _ => o.readOption readPath⟩]
where
  readPath : Outline → Except ReadError String
    | .string path => .ok path
    | other => .error (other.refuse "path string")

private def exportLayout : Layout Bool where
  title := "struct ExportConfig"
  blank := true
  strict := false
  members := [⟨"include_extensions", false, fun _ o _ => o.readBool⟩]

def layout : Layout Settings where
  title := "struct ValidatorsConfig"
  blank := {}
  strict := false
  members := [
    ⟨"output", false, fun scope o s => return { s with format := ← outputLayout.read scope o }⟩,
    ⟨"models", false, fun scope o s =>
      return { s with modelsDir := ← modelsLayout.read scope o }⟩,
    ⟨"export", false, fun scope o s =>
      return { s with includeExtensions := ← exportLayout.read scope o }⟩]

def parse : String → Except ReadError Settings := Reading.document layout.read

end Settings

end FieldRules
