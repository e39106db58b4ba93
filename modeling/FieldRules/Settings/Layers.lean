import FieldRules.Files
import FieldRules.Ini
import FieldRules.Json5
import FieldRules.Ron
import FieldRules.Settings.Reader
import FieldRules.Toml.Reader
import FieldRules.Yaml

namespace FieldRules.Settings

inductive FileFormat
  | toml
  | json
  | yaml
  | ini
  | ron
  | json5
deriving DecidableEq

namespace FileFormat

/-- The extensions of file names, each with what it stands for. -/
def extensions : List (String × FileFormat) :=
  [("toml", .toml), ("json", .json), ("yaml", .yaml), ("yml", .yaml), ("ini", .ini),
   ("ron", .ron), ("json5", .json5)]

def ofExtension? (extension : String) : Option FileFormat := Entries.get? extensions extension

def readJson (text : String) : Option (List (String × Setting)) :=
  match Json.parse text with
  | .ok (.object members) => some (Setting.ofMembers members)
  | _ => none

/-- The entries that a text gives; nothing if it is faulty. -/
def read? : FileFormat → String → Option (List (String × Setting))
  | .toml => Toml.parse?
  | .json => readJson
  | .yaml => Yaml.parse?
  | .ini => Ini.parse?
  | .ron => Ron.parse?
  | .json5 => Json5.parse?

end FileFormat

end FieldRules.Settings

namespace FieldRules

open Files

abbrev Environment := List (String × String)

namespace Settings

/-! Settings come in layers, each over the ones before: files in the working
directory, a file of the user's, a file that is asked for, and variables. -/

/-- What variables for settings start with; two underscores divide names. -/
def variablePrefix : String := "validators__"

/-- A variable's value, taken for a truth value or a number if it reads as one. -/
def ofVariable (value : String) : Setting :=
  match value.toLower with
  | "true" => .bool true
  | "false" => .bool false
  | _ =>
      match Numeral.integer? value, Numeral.real? value with
      | some number, _ => .integer number
      | none, some number => .real number
      | none, none => .text value

/-- The names of a place stand between points, where a variable's name has two
underscores. -/
def dotted : List Char → List Char
  | '_' :: '_' :: rest => '.' :: dotted rest
  | c :: rest => c :: dotted rest
  | [] => []

/-- The place that a variable gives a value for, if it is one for settings. Names
count without regard to case. -/
def variableKey? (name : String) : Option String :=
  let name := name.toLower
  if name.startsWith variablePrefix then
    some (String.ofList (dotted (name.toList.drop variablePrefix.length)))
  else none

/-- The layer that variables give. -/
def variableLayer (environment : Environment) : List (String × Setting) :=
  environment.filterMap fun (name, value) =>
    (variableKey? name).map fun key => (key, ofVariable value)

/-- The paths that are tried for a file of settings: the path itself, and its last
name with one of the known extensions added. -/
def candidates (path : String) : List String :=
  path :: (match Path.upToName? path with
    | none => []
    | some path => FileFormat.extensions.map fun entry => path ++ "." ++ entry.1)

/-- A file's format and text, if the file is there and both can be made out. -/
def source? (disk : Disk) (path : String) : Option (FileFormat × String) := do
  let found ← (candidates path).find? disk.isFile
  let format ← FileFormat.ofExtension? (← Path.extension? found)
  return (format, ← (disk.readText found).toOption)

/-- The layer of a file. A text that can be made out has to be right. -/
def layerOf (source : FileFormat × String) : Except Error (List (String × Setting)) :=
  match source.1.read? source.2 with
  | some layer => .ok layer
  | none => .error .settings

def optionalLayer (disk : Disk) (path : String) : Except Error (List (String × Setting)) :=
  match source? disk path with
  | some source => layerOf source
  | none => .ok []

def requiredLayer (disk : Disk) (path : String) : Except Error (List (String × Setting)) :=
  match source? disk path with
  | some source => layerOf source
  | none => .error .settings

def localFiles : List String :=
  ["validators.toml", ".validators.toml", "config/validators.toml"]

def userDirectory? (environment : Environment) : Option String :=
  match Entries.get? environment "XDG_CONFIG_HOME", Entries.get? environment "HOME" with
  | some path, home =>
      if Path.isAbsolute path then some path
      else home.map (Path.join · ".config")
  | none, home => home.map (Path.join · ".config")

def userFile? (environment : Environment) : Option String :=
  (userDirectory? environment).map (Path.join · "validators/validators.toml")

def sources (environment : Environment) (path : Option String) : List String :=
  (localFiles ++ (userFile? environment).toList ++ path.toList).flatMap candidates

def load (disk : Disk) (environment : Environment) (path : Option String) :
    Except Error Settings := do
  let locals ← localFiles.mapM (optionalLayer disk)
  let user ← match (userFile? environment).filter disk.isThere with
    | some file => optionalLayer disk file
    | none => pure []
  let chosen ← match path with
    | some path => requiredLayer disk path
    | none => pure []
  let merged := (locals ++ [user, chosen, variableLayer environment]).foldl Setting.layOver []
  match ofSetting? (.table merged) with
  | some settings => return settings
  | none => .error .settings

def save (disk : Disk) (settings : Settings) (path : String) : Except FileError Disk :=
  disk.writeText path settings.toToml

end Settings

end FieldRules
