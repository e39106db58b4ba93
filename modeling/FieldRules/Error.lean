import FieldRules.Reading

namespace FieldRules

inductive FileError
  | notFound
  | notDirectory
  | isDirectory
  | notText
  | nameTooLong
  | nulInName
deriving DecidableEq

def FileError.message : FileError → String
  | .notFound => "No such file or directory (os error 2)"
  | .notDirectory => "Not a directory (os error 20)"
  | .isDirectory => "Is a directory (os error 21)"
  | .notText => "stream did not contain valid UTF-8"
  | .nameTooLong => "File name too long (os error 36)"
  | .nulInName => "file name contained an unexpected NUL byte"

inductive Error
  | missingType (model field : String)
  | missingValues (model field : String)
  | noName
  | badModelFile (path : String) (cause : ReadError)
  | badDirectory (path : String) (cause : FileError)
  | file (cause : FileError)
  | document (cause : ReadError)
  | settings
deriving DecidableEq

namespace Error

inductive Kind
  | missingType
  | missingValues
  | invalidDefinition
  | file
  | document
  | settings
deriving DecidableEq

def kind : Error → Kind
  | .missingType _ _ => .missingType
  | .missingValues _ _ => .missingValues
  | .noName | .badModelFile _ _ | .badDirectory _ _ => .invalidDefinition
  | .file _ => .file
  | .document _ => .document
  | .settings => .settings

/-- Whether a model was read but cannot be compiled. -/
def isCompileError (error : Error) : Bool :=
  error.kind == .missingType || error.kind == .missingValues

def message : Error → String
  | .missingType model field => "Schema must have a type: " ++ model ++ "." ++ field
  | .missingValues model field => "Enum must define its values: " ++ model ++ "." ++ field
  | .noName => "Invalid model definition: model has no name"
  | .badModelFile path cause =>
      "Invalid model definition: " ++ path ++ ": " ++ cause.message
  | .badDirectory path cause =>
      "Invalid model definition: IO error for operation on " ++ path ++ ": " ++ cause.message
  | .file cause => "IO error: " ++ cause.message
  | .document cause => "JSON error: " ++ cause.message
  | .settings => "Config error"

end Error

end FieldRules
