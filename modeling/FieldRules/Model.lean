import FieldRules.Files
import FieldRules.ModelRules

namespace FieldRules

open Json Reading

namespace TypeDescription

def toJson (description : TypeDescription) : Json :=
  .object (
    Json.optional "type" .string description.name
      ++ Json.optional "values" Json.strings description.values
      ++ Json.optional "precision" Json.ofUInt32 description.precision
      ++ Json.optional "max" Json.ofUInt64 description.max
      ++ Json.optional "format" .string description.format)

def layout : Layout TypeDescription where
  title := "struct TypeDescriptor"
  blank := {}
  strict := false
  members := [
    ⟨"type", false, fun _ o d => return { d with name := ← o.readOption Outline.readString }⟩,
    ⟨"values", false, fun scope o d =>
      return { d with values := ← o.readOption fun o => o.readStrings scope }⟩,
    ⟨"precision", false, fun _ o d =>
      return { d with precision := ← o.readOption Outline.readUInt32 }⟩,
    ⟨"max", false, fun _ o d => return { d with max := ← o.readOption Outline.readUInt64 }⟩,
    ⟨"format", false, fun _ o d =>
      return { d with format := ← o.readOption Outline.readString }⟩]

def read : Scope → Outline → Except ReadError TypeDescription := layout.read

def parse : String → Except ReadError TypeDescription := Reading.document read

end TypeDescription

/-- A text is a type's name; anything else has to be a description. The text of
the whole value is checked first, and then only one error is left. -/
def TypeRef.read (scope : Scope) (outline : Outline) : Except ReadError TypeRef := do
  outline.check scope
  match outline with
  | .string name => return .named name
  | other =>
      match TypeDescription.read { scope with checked := true } other with
      | .ok description => return .described description
      | .error _ => .error (.noVariant "RawType")

end FieldRules

namespace FieldRules.Attribute

open Json Reading

/-- A default of null counts as none. -/
def layout : Layout Attribute where
  title := "struct RawAttribute"
  blank := {}
  strict := true
  members := [
    ⟨"type", false, fun scope o a =>
      return { a with type := ← o.readOption (TypeRef.read scope) }⟩,
    ⟨"allowNull", false, fun _ o a =>
      return { a with allowNull := ← o.readOption Outline.readBool }⟩,
    ⟨"max", false, fun _ o a => return { a with max := ← o.readOption Outline.readUInt64 }⟩,
    ⟨"precision", false, fun _ o a =>
      return { a with precision := ← o.readOption Outline.readUInt32 }⟩,
    ⟨"format", false, fun _ o a =>
      return { a with format := ← o.readOption Outline.readString }⟩,
    ⟨"iso", false, fun _ o a => return { a with iso := ← o.readBool }⟩,
    ⟨"values", false, fun scope o a =>
      return { a with values := ← o.readOption fun o => o.readStrings scope }⟩,
    ⟨"label", false, fun _ o a =>
      return { a with label := ← o.readOption Outline.readString }⟩,
    ⟨"description", false, fun _ o a =>
      return { a with description := ← o.readOption Outline.readString }⟩,
    ⟨"comment", false, fun _ o a =>
      return { a with comment := ← o.readOption Outline.readString }⟩,
    ⟨"primaryKey", false, fun _ o a => return { a with primaryKey := ← o.readBool }⟩,
    ⟨"autoIncrement", false, fun _ o a => return { a with autoIncrement := ← o.readBool }⟩,
    ⟨"defaultValue", false, fun scope o a =>
      return { a with defaultValue := ← o.readOption fun o => o.readValue scope }⟩,
    ⟨"validator", false, fun scope o a =>
      return { a with override := ← o.readOption (Validator.read scope) }⟩,
    ⟨"isJS", false, fun _ o a => return { a with ownRefinements := ← o.readBool }⟩]

def read : Scope → Outline → Except ReadError Attribute := layout.read

end FieldRules.Attribute

namespace FieldRules

structure Model where
  name : String
  attributes : Entries Attribute

namespace Model

def named (name : String) : Model := ⟨name, []⟩

def withAttribute (model : Model) (key : String) (attr : Attribute) : Model :=
  { model with attributes := model.attributes.put key attr }

def compile (model : Model) : Except Error ModelRules :=
  ModelRules.compile model.name model.attributes

open Json Reading

/-- The document form of a model, which may leave out the name. -/
def layout : Layout (Option String × Entries Attribute) where
  title := "struct RawModel"
  blank := (none, [])
  strict := true
  members := [
    ⟨"name", false, fun _ o value =>
      return (← o.readOption Outline.readString, value.2)⟩,
    ⟨"attributes", true, fun scope o value =>
      return (value.1, ← o.readEntries scope Attribute.read)⟩]

/-- A model without a name of its own takes the other name, if there is one. -/
def ofDocument (content : Option String × Entries Attribute) (otherName : Option String) :
    Except Error Model :=
  match (content.1 <|> otherName).filter (· != "") with
  | some name => .ok ⟨name, content.2⟩
  | none => .error .noName

def parse (text : String) (otherName : Option String) : Except Error Model := do
  let content ← (Reading.document layout.read text).mapError .document
  ofDocument content otherName

end Model

end FieldRules

namespace FieldRules.Model

open Files

/-! A model file gives the model a name if the document does not. -/

/-- The model in the bytes of a file. A problem of the document's form names the
path. Since paths are texts, a file that has a name has a stem to give to the model; a
stem that is not UTF-8, which counts as none, does not occur. -/
def ofBytes (path : String) (bytes : ByteArray) : Except Error Model := do
  let text ← (Disk.textOf bytes).mapError .file
  match parse text (Path.stem? path) with
  | .ok model => return model
  | .error (.document cause) => .error (.badModelFile path cause)
  | .error other => .error other

def load (disk : Disk) (path : String) : Except Error Model := do
  let bytes ← (disk.readBytes path).mapError .file
  ofBytes path bytes

def isModelFile (path : String) : Bool :=
  Disk.canFollow path && Path.extension? path == some "json"

/-- The models at or below a path, in walking order; the first file that cannot be
loaded decides the error. -/
def loadAll (disk : Disk) (path : String) : Except Error (List Model) := do
  let tree ← (disk.tree path).mapError (.badDirectory path)
  ((tree.filesAt path).filter fun file => isModelFile file.1).mapM fun file =>
    ofBytes file.1 file.2

end FieldRules.Model
