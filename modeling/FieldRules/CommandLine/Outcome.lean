import FieldRules.CommandLine.Arguments
import FieldRules.Draft7.Issue
import FieldRules.Model
import FieldRules.Settings.Layers

namespace FieldRules.CommandLine

open Draft7

/-! Records are checked one by one against the schema of a model. -/

/-- The records of a document: the items of a list, or its only value. -/
def recordsOf : Json → List Json
  | .array records => records
  | record => [record]

structure Finding where
  index : Nat
  issues : List Issue

def Finding.isValid (finding : Finding) : Bool := finding.issues.isEmpty

def findings (schema : Schema) (records : List Json) : List Finding :=
  records.zipIdx.map fun (record, index) => ⟨index, schema.issues record []⟩

def Finding.describe (finding : Finding) : String :=
  if finding.isValid then "  ✅ #" ++ toString finding.index ++ " - valid\n"
  else
    "  ❌ #" ++ toString finding.index ++ " - INVALID\n"
      ++ String.join (finding.issues.map fun issue =>
        "     └─ " ++ issue.cause.message ++ " at '" ++ issue.pointer ++ "'\n")

def report (modelName : String) (found : List Finding) : String :=
  "🔍 Checking " ++ toString found.length ++ " record(s) against " ++ modelName ++ "\n"
    ++ String.join (found.map Finding.describe)

end FieldRules.CommandLine

namespace FieldRules.CommandLine

open Files

inductive Failure
  | rules (cause : Error)
  | noModels
  | badIdentifier (modelName : String) (cause : Url.Fault)
  | emptyChoice (modelName : String)
  | unreadableRecord (path : String) (cause : FileError)
  | badRecord (cause : ReadError)
  | unwritable (cause : FileError)
  | failedRecords (failed total : Nat)

namespace Failure

def message : Failure → String
  | .rules (.file cause) => (Error.file cause).message ++ ": " ++ cause.message
  | .rules cause => cause.message
  | .noModels => "Either a model file or --dir must be specified"
  | .badIdentifier modelName cause =>
      "Invalid JSON Schema for " ++ modelName ++ ": " ++ cause.message
  | .emptyChoice modelName =>
      "Invalid JSON Schema for " ++ modelName ++ ": [] has less than 1 item"
  | .unreadableRecord path cause => "reading " ++ path ++ ": " ++ cause.message
  | .badRecord cause => cause.message
  | .unwritable cause => cause.message
  | .failedRecords failed total =>
      toString failed ++ " of " ++ toString total ++ " record(s) failed validation"

end Failure

/-- What a command leaves: its printed results, whether it failed, and the files. -/
structure Outcome where
  output : String
  failure : Option Failure
  disk : Disk

structure Exit where
  status : Nat
  output : String
  errors : String
  disk : Disk

def name : String := "model-validators"

def versionLine : String := name ++ " 0.1.0\n"

def usage : String :=
  "Usage: " ++ name ++ " [--config FILE] [--compact] COMMAND\n\n"
    ++ "  compile [FILE | --dir DIR]\n"
    ++ "  export FILE\n"
    ++ "  check FILE RECORDS\n"
    ++ "  config [--init FILE]\n"

/-- The directory whose models are compiled, if no file is named. -/
def Command.directory? (settings : Settings) : Command → Option String
  | .compile none directory => directory <|> settings.modelsDir
  | _ => none

def Command.files : Command → List String
  | .compile file _ => file.toList
  | .export file => [file]
  | .check file record => [file, record]
  | .config path => path.toList

/-- The models that are compiled: a file, or the directory that is given here or
in the settings. -/
def selectModels (disk : Disk) (settings : Settings) (file directory : Option String) :
    Except Failure (List Model) :=
  match file, directory <|> settings.modelsDir with
  | some file, _ => ((Model.load disk file).map fun model => [model]).mapError .rules
  | none, some directory => (Model.loadAll disk directory).mapError .rules
  | none, none => .error .noModels

def compileModels (disk : Disk) (settings : Settings) (file directory : Option String) :
    Except Failure (List ModelRules) := do
  let models ← selectModels disk settings file directory
  (models.mapM Model.compile).mapError .rules

/-- A single result stands alone, others in a list. -/
def renderAll (format : OutputFormat) : List ModelRules → String
  | [rules] => format.render rules.toJson
  | all => format.render (.array (all.map ModelRules.toJson))

def compileModel (disk : Disk) (file : String) : Except Failure ModelRules :=
  ((Model.load disk file).bind Model.compile).mapError .rules

/-- Why records cannot be checked against a schema, if they cannot. -/
def schemaFailure? (modelName : String) (document : Draft7.Document) : Option Failure :=
  match Draft7.identifierFault? Draft7.documentBase document.toJson with
  | some cause => some (.badIdentifier modelName cause)
  | none => if document.root.choicesInhabited then none else some (.emptyChoice modelName)

/-- The findings on the records of a file. The schema has to be in order before
the file is looked at. -/
def checkRecords (disk : Disk) (file record : String) :
    Except Failure (String × List Finding) := do
  let rules ← compileModel disk file
  let document := rules.schema true
  let schema := document.root
  if let some failure := schemaFailure? rules.modelName document then throw failure
  let text ← (disk.readText record).mapError (.unreadableRecord record)
  let records ← (Json.parse text).mapError .badRecord
  return (rules.modelName, findings schema (recordsOf records))

def checkFailure (found : List Finding) : Option Failure :=
  let failed := (found.filter fun finding => !finding.isValid).length
  if failed = 0 then none else some (.failedRecords failed found.length)

def perform (disk : Disk) (settings : Settings) (command : Command) : Outcome :=
  let printing (result : Except Failure String) : Outcome :=
    match result with
    | .ok text => ⟨text ++ "\n", none, disk⟩
    | .error failure => ⟨"", some failure, disk⟩
  match command with
  | .compile file directory =>
      printing ((compileModels disk settings file directory).map
        (renderAll settings.format))
  | .export file =>
      printing ((compileModel disk file).map fun rules =>
        settings.format.render (rules.schema settings.includeExtensions).toJson)
  | .check file record =>
      match checkRecords disk file record with
      | .ok (modelName, found) => ⟨report modelName found, checkFailure found, disk⟩
      | .error failure => ⟨"", some failure, disk⟩
  | .config (some path) =>
      match Settings.save disk {} path with
      | .ok disk => ⟨"✅ Default config written to " ++ path ++ "\n", none, disk⟩
      | .error cause => ⟨"", some (.unwritable cause), disk⟩
  | .config none => printing (.ok settings.toToml)

/-- The settings for a command: those of the layers, with the format that is asked
for. -/
def effectiveSettings (disk : Disk) (environment : Environment) (arguments : Arguments) :
    Except Error Settings := do
  let settings ← Settings.load disk environment arguments.settingsFile
  return if arguments.compact then { settings with format := .compact } else settings

def runCommand (disk : Disk) (environment : Environment) (arguments : Arguments) : Outcome :=
  match effectiveSettings disk environment arguments with
  | .ok settings => perform disk settings arguments.command
  | .error cause => ⟨"", some (.rules cause), disk⟩

/-- Runs the program. A misuse is not a failure of a command and has a status of
its own. -/
def run (disk : Disk) (environment : Environment) (arguments : List String) : Exit :=
  match Invocation.ofArguments arguments with
  | .version => ⟨0, versionLine, "", disk⟩
  | .help => ⟨0, usage, "", disk⟩
  | .misuse => ⟨2, "", usage, disk⟩
  | .run arguments =>
      let outcome := runCommand disk environment arguments
      match outcome.failure with
      | none => ⟨0, outcome.output, "", outcome.disk⟩
      | some failure =>
          ⟨1, outcome.output, "Error: " ++ failure.message ++ "\n", outcome.disk⟩

end FieldRules.CommandLine
