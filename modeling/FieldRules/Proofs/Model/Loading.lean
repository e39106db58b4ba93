import FieldRules.Model
import FieldRules.Proofs.Files.Writing
import FieldRules.Proofs.ModelRules.Failure
import FieldRules.Proofs.Validator.Reader
import Mathlib.Data.List.Sort

namespace FieldRules

open Json Reading

/-! What is known of every model that was read, whatever its document was. -/

namespace Attribute

/-- An attribute that was read with room for some levels: its override is in canonical form,
and its default is a sorted value. -/
structure ReadIn (room : Nat) (attr : Attribute) : Prop where
  override : ∀ override ∈ attr.override,
    override.CanonicalThroughout ∧ override.toJson.depth ≤ room
  default : ∀ default ∈ attr.defaultValue, default.sorted = default ∧ default.depth < room

theorem keeps_readIn {room : Nat} {checked : Bool} :
    layout.Keeps ⟨room, checked⟩ (ReadIn (room + 1)) := by
  refine ⟨⟨nofun, nofun⟩, ?_⟩
  simp only [layout, List.forall_mem_cons]
  refine ⟨?_, ?_, ?_, ?_, ?_, ?_, ?_, ?_, ?_, ?_, ?_, ?_, ?default, ?override, ?_, nofun⟩
  case default =>
    intro outline before after kept taken
    obtain ⟨part, given, rfl⟩ := bind_pure_eq_ok_iff.mp taken
    refine ⟨kept.override, fun default member => ?_⟩
    obtain ⟨_, read⟩ := Outline.readOption_ok given default member
    obtain ⟨sorted, deep⟩ := Outline.readValue_ok read
    exact ⟨sorted, Nat.lt_succ_of_le deep⟩
  case override =>
    intro outline before after kept taken
    obtain ⟨part, given, rfl⟩ := bind_pure_eq_ok_iff.mp taken
    refine ⟨fun override member => ?_, kept.default⟩
    exact Validator.read_ok (Outline.readOption_ok given override member).2
  all_goals
    intro outline before after kept taken
    obtain ⟨part, -, rfl⟩ := bind_pure_eq_ok_iff.mp taken
    exact ⟨kept.override, kept.default⟩

theorem read_ok {scope : Scope} {outline : Outline} {attr : Attribute}
    (given : read scope outline = .ok attr) : attr.ReadIn scope.room := by
  have keeps : ∀ {room}, scope.room = room + 1 →
      layout.Keeps { scope with room } (ReadIn scope.room) := by
    intro room isRoom
    rw [isRoom]
    exact keeps_readIn
  exact Layout.Keeps.read keeps given

end Attribute

namespace Model

def attributeRoom : Nat := greatestDepth - 2

/-- Attributes in which the first of each key has taken its place, all of them read. -/
structure AttributesRead (attributes : Entries Attribute) : Prop where
  distinct : attributes.Distinct
  each : ∀ entry ∈ attributes, entry.2.ReadIn attributeRoom

theorem keeps_attributes {room : Nat} (isRoom : Scope.outermost.room = room + 1) :
    layout.Keeps ⟨room, false⟩ fun content => AttributesRead content.2 := by
  refine ⟨⟨Entries.distinct_nil, fun _ none => absurd none List.not_mem_nil⟩, ?_⟩
  simp only [layout, List.forall_mem_cons]
  refine ⟨?name, ?attributes, nofun⟩
  case name =>
    intro outline before after kept taken
    obtain ⟨part, -, rfl⟩ := bind_pure_eq_ok_iff.mp taken
    exact kept
  case attributes =>
    intro outline before after kept taken
    obtain ⟨attributes, given, rfl⟩ := bind_pure_eq_ok_iff.mp taken
    obtain ⟨inside, isInside, distinct, each⟩ := Outline.readEntries_ok given
    obtain rfl : inside = attributeRoom := by
      simp only [Scope.outermost, greatestDepth, attributeRoom] at *
      omega
    refine ⟨distinct, fun entry member => ?_⟩
    obtain ⟨part, read⟩ := each entry member
    exact Attribute.read_ok read

theorem attributesRead_of_parse {text : String} {otherName : Option String} {model : Model}
    (parsed : parse text otherName = .ok model) : AttributesRead model.attributes := by
  obtain ⟨content, read, named⟩ := bind_eq_ok_iff.mp parsed
  have attributes : model.attributes = content.2 := by
    unfold ofDocument at named
    split at named
    · cases named
      rfl
    · cases named
  have read : layout.read .outermost (Outline.ofText text).1 = .ok content :=
    document_ok (mapError_eq_ok_iff.mp read)
  have kept := Layout.Keeps.read keeps_attributes read
  rw [attributes]
  exact kept

theorem load_of_readText {disk : Files.Disk} {path text : String} {model : Model}
    (readable : disk.readText path = .ok text)
    (parsed : parse text (Files.Path.stem? path) = .ok model) : load disk path = .ok model := by
  obtain ⟨bytes, read, decoded⟩ := bind_eq_ok_iff.mp readable
  rw [load, read, mapError_ok, ok_bind, ofBytes, decoded, mapError_ok, ok_bind, parsed]
  rfl

theorem attributesRead_of_load {disk : Files.Disk} {path : String} {model : Model}
    (loaded : load disk path = .ok model) : AttributesRead model.attributes := by
  obtain ⟨bytes, _, loaded⟩ := bind_eq_ok_iff.mp loaded
  obtain ⟨text, _, loaded⟩ := bind_eq_ok_iff.mp loaded
  cases parsed : parse text (Files.Path.stem? path) with
  | ok read =>
      obtain rfl : read = model := by simpa [parsed] using loaded
      exact attributesRead_of_parse parsed
  | error cause =>
      rw [parsed] at loaded
      cases cause with
      | document problem => cases loaded
      | _ => cases loaded

end Model

end FieldRules

namespace FieldRules.Model

open Files

/-! The models of a directory are those of its model files, in the order of the files' paths
compared name by name. No other file matters. -/

variable {disk : Disk} {path : String} {entries : List (String × Tree)} {tree : Tree}
  {names : List String} {bytes : ByteArray}

/-- Whether a file is called after a model: something, then the extension. -/
def CalledModel (names : List String) : Prop :=
  ∃ stem, stem ≠ "" ∧ names.getLast? = some (stem ++ ".json")

/-- The model files of a tree, each by the names that lead to it. -/
structure ListsModelFiles (tree : Tree) (files : List (List String)) : Prop where
  ordered : files.Pairwise (· < ·)
  mem_iff : ∀ names, names ∈ files ↔
    (∃ bytes, tree.get? names = some (.file bytes)) ∧ CalledModel names

/-- A directory that can be found and whose files can all be followed to. -/
structure Readable (disk : Disk) (path : String) (entries : List (String × Tree)) : Prop where
  found : disk.tree path = .ok (.directory entries)
  wellFormed : (Tree.directory entries).WellFormed
  short : ∀ names bytes, (Tree.directory entries).get? names = some (.file bytes) →
    Disk.canFollow (Path.within path names)

theorem ListsModelFiles.unique {first second : List (List String)}
    (isFirst : ListsModelFiles tree first) (isSecond : ListsModelFiles tree second) :
    first = second :=
  isFirst.ordered.eq_of_mem_iff isSecond.ordered fun names =>
    (isFirst.mem_iff names).trans (isSecond.mem_iff names).symm

theorem calledModel_iff : CalledModel names ↔
    (names.getLast?.bind fun name => (Path.splitName name).2) = some "json" := by
  have noPoint : '.' ∉ "json".toList := by decide
  simp only [CalledModel, Option.bind_eq_some_iff, Path.splitName_extension_iff noPoint,
    String.append_assoc]
  constructor
  · rintro ⟨stem, nonempty, last⟩
    exact ⟨_, last, stem, nonempty, rfl⟩
  · rintro ⟨_, last, stem, nonempty, rfl⟩
    exact ⟨stem, nonempty, last⟩

instance (names : List String) : Decidable (CalledModel names) :=
  decidable_of_iff _ calledModel_iff.symm

def modelFiles (tree : Tree) : List (List String) :=
  (tree.files.map Prod.fst).filter fun names => CalledModel names

theorem mem_modelFiles_iff (wellFormed : tree.WellFormed) : names ∈ modelFiles tree ↔
    (∃ bytes, tree.get? names = some (.file bytes)) ∧ CalledModel names := by
  simp [modelFiles, ← Tree.mem_files_iff wellFormed]

theorem modelFiles_spec (wellFormed : tree.WellFormed) :
    ListsModelFiles tree (modelFiles tree) where
  ordered := (List.pairwise_map.mpr (Tree.files_ordered wellFormed)).filter _
  mem_iff _ := mem_modelFiles_iff wellFormed

theorem ofBytes_of_parse {text : String} {model : Model}
    (parsed : parse text (Path.stem? path) = .ok model) : ofBytes path text.toUTF8 = .ok model := by
  rw [ofBytes, Disk.textOf_toUTF8, mapError_ok, ok_bind, parsed]
  rfl

theorem load_of_tree (found : disk.tree path = .ok (.file bytes)) :
    load disk path = ofBytes path bytes := by
  rw [load, Disk.readBytes_of_tree found]
  rfl

/-- Files are loaded from their paths, as they are walked. -/
theorem loadAll_eq_mapM_load (wellFormed : tree.WellFormed) (found : disk.tree path = .ok tree) :
    loadAll disk path =
      ((tree.files.map Prod.fst).filter fun names => isModelFile (Path.within path names)).mapM
        fun names => load disk (Path.within path names) := by
  have loaded : ∀ file ∈ tree.files.filter fun file => isModelFile (Path.within path file.1),
      ofBytes (Path.within path file.1) file.2 = load disk (Path.within path file.1) := by
    intro file member
    obtain ⟨member, isModel⟩ := List.mem_filter.mp member
    have leads : tree.get? file.1 = some (.file file.2) := (Tree.mem_files_iff wellFormed).mp member
    have short : Disk.canFollow (Path.within path file.1) := (Bool.and_eq_true_iff.mp isModel).1
    exact (load_of_tree (Disk.tree_within wellFormed found leads short)).symm
  calc loadAll disk path
      = (tree.files.filter fun file => isModelFile (Path.within path file.1)).mapM
          fun file => ofBytes (Path.within path file.1) file.2 := by
        have walked := Tree.filesAt_eq wellFormed path
        simp [loadAll, found, walked, List.filter_map, List.mapM_map, Function.comp_def]
    _ = (tree.files.filter fun file => isModelFile (Path.within path file.1)).mapM
          fun file => load disk (Path.within path file.1) := mapM_congr loaded
    _ = ((tree.files.map Prod.fst).filter fun names => isModelFile (Path.within path names)).mapM
          fun names => load disk (Path.within path names) := by
        simp [List.filter_map, List.mapM_map, Function.comp_def]

namespace Readable

theorem present (readable : Readable disk path entries) : path ≠ "" := by
  obtain ⟨place, located, -⟩ := Disk.tree_eq_ok_iff.mp readable.found
  exact (Disk.locate_eq_ok_iff.mp located).1

theorem isModelFile_within (readable : Readable disk path entries)
    (leads : (Tree.directory entries).get? names = some (.file bytes)) :
    isModelFile (Path.within path names) = decide (CalledModel names) := by
  have short := readable.short names bytes leads
  rcases names.eq_nil_or_concat' with rfl | ⟨before, name, rfl⟩
  · cases leads
  · have isName : Path.IsName name := readable.wellFormed.isName leads (by simp)
    have atEnd := Path.extension?_join (Path.within_ne_empty readable.present before) isName
    rw [← Path.within_concat] at atEnd
    rw [isModelFile, short, atEnd, Bool.true_and, Bool.eq_iff_iff]
    simp [calledModel_iff]

/-- A file is loaded from its path, so nothing but its bytes decides the outcome. -/
theorem load_within (readable : Readable disk path entries)
    (leads : (Tree.directory entries).get? names = some (.file bytes)) :
    load disk (Path.within path names) = ofBytes (Path.within path names) bytes :=
  load_of_tree (Disk.tree_within readable.wellFormed readable.found leads
    (readable.short names bytes leads))

/-- Loading goes through the files as they are walked and leaves out the others. -/
theorem loadAll_eq (readable : Readable disk path entries) :
    loadAll disk path =
      (modelFiles (.directory entries)).mapM fun names => load disk (Path.within path names) := by
  have kept : ((Tree.directory entries).files.map Prod.fst).filter
        (fun names => isModelFile (Path.within path names)) = modelFiles (.directory entries) := by
    apply List.filter_congr
    intro _ listed
    obtain ⟨⟨names, bytes⟩, member, rfl⟩ := List.mem_map.mp listed
    exact readable.isModelFile_within ((Tree.mem_files_iff readable.wellFormed).mp member)
  rw [loadAll_eq_mapM_load readable.wellFormed readable.found, kept]

end Readable

/-- Two directories with the same model files load alike, whatever else they hold. -/
theorem loadAll_congr {other : Disk} {otherEntries : List (String × Tree)}
    (readable : Readable disk path entries) (otherReadable : Readable other path otherEntries)
    (same : ∀ names bytes, CalledModel names →
      ((Tree.directory otherEntries).get? names = some (.file bytes) ↔
        (Tree.directory entries).get? names = some (.file bytes))) :
    loadAll other path = loadAll disk path := by
  have sameFiles : ListsModelFiles (.directory entries) (modelFiles (.directory otherEntries)) := by
    refine ⟨(modelFiles_spec otherReadable.wellFormed).ordered, fun names => ?_⟩
    rw [mem_modelFiles_iff otherReadable.wellFormed]
    refine and_congr_left fun called => exists_congr fun bytes => same names bytes called
  rw [readable.loadAll_eq, otherReadable.loadAll_eq,
    sameFiles.unique (modelFiles_spec readable.wellFormed)]
  apply mapM_congr
  intro names member
  obtain ⟨⟨bytes, leads⟩, called⟩ := (mem_modelFiles_iff readable.wellFormed).mp member
  rw [readable.load_within leads, otherReadable.load_within ((same names bytes called).mpr leads)]

/-- Every model file is loaded once and in order, or the first that cannot be loaded decides the
error. -/
theorem loadAll_in_path_order (readable : Readable disk path entries) :
    ∃ files, (∀ other, ListsModelFiles (.directory entries) other ↔ other = files) ∧
      (∀ models, loadAll disk path = .ok models ↔
        List.Forall₂ (fun names model => load disk (Path.within path names) = .ok model)
          files models) ∧
      (∀ cause, loadAll disk path = .error cause ↔
        FirstFails (fun names => load disk (Path.within path names)) files cause) ∧
      ∀ otherDisk otherEntries, Readable otherDisk path otherEntries →
        (∀ names bytes, CalledModel names →
          ((Tree.directory otherEntries).get? names = some (.file bytes) ↔
            (Tree.directory entries).get? names = some (.file bytes))) →
        loadAll otherDisk path = loadAll disk path := by
  have spec := modelFiles_spec readable.wellFormed
  refine ⟨modelFiles (.directory entries), fun other => ⟨fun isOther => isOther.unique spec, ?_⟩,
    fun models => ?_, fun cause => ?_, fun _ _ => loadAll_congr readable⟩
  · rintro rfl
    exact spec
  · rw [readable.loadAll_eq, mapM_eq_ok_iff]
  · rw [readable.loadAll_eq, mapM_eq_error_iff]

def plainText : String := "\x7b\"attributes\":\x7b\x7d\x7d"

/-- A directory whose names stand in no order: `a` is a directory, `.json` has no stem, and
`b.json` is a directory with a file that has no extension beside its model. -/
def shelf : List (String × Tree) :=
  let model : Tree := .file plainText.toUTF8
  [("b.json", .directory [("c.json", model), ("json", .file .empty)]), ("a.json", model),
    (".json", .file .empty), ("a", .directory [("x.json", model)])]

def library : Disk := ⟨.directory [("models", .directory shelf)], []⟩

theorem wellFormed_shelf : (Tree.directory shelf).WellFormed := by
  have file (bytes : ByteArray) : (Tree.file bytes).WellFormed := .file bytes
  have names : ∀ name ∈ ["b.json", "c.json", "json", "a.json", ".json", "a", "x.json"],
      Path.IsName name := by decide
  refine .directory ?_ ?_ ?_
  · simp [Entries.Distinct, Entries.names, shelf]
  · simp [shelf, names]
  · simp only [shelf, List.forall_mem_cons]
    exact ⟨.directory (by simp [Entries.Distinct]) (by simp [names]) (by simp [file]),
      file _, file _,
      .directory (by simp [Entries.Distinct]) (by simp [names]) (by simp [file]),
      List.forall_mem_nil _⟩

theorem files_shelf : (Tree.directory shelf).files.map Prod.fst =
    [[".json"], ["a", "x.json"], ["a.json"], ["b.json", "c.json"], ["b.json", "json"]] := by
  rfl

theorem readable_library : Readable library "models" shelf where
  found := by
    have isName : Path.IsName "models" := by decide
    refine Disk.tree_eq_ok_iff.mpr ⟨["models"], Disk.locate_eq_ok_iff.mpr
      ⟨isName.nonempty, isName.noNul, by decide, ?_⟩, rfl⟩
    rw [Path.parts_of_undivided isName.undivided]
    have stepped : library.step [] "models" = .ok ["models"] := Disk.step_entry rfl isName rfl
    simpa [Disk.start, library] using stepped
  wellFormed := wellFormed_shelf
  short names bytes leads := by
    have walked : ∀ names ∈ (Tree.directory shelf).files.map Prod.fst,
        Disk.canFollow (Path.within "models" names) := by
      rw [files_shelf]
      decide +kernel
    exact walked names (List.mem_map_of_mem ((Tree.mem_files_iff wellFormed_shelf).mpr leads))

theorem loadAll_in_path_order_library :
    Readable library "models" shelf ∧
      loadAll library "models" = .ok [named "x", named "a", named "c"] := by
  obtain ⟨files, listed, loaded, -⟩ := loadAll_in_path_order readable_library
  obtain rfl : modelFiles (.directory shelf) = files :=
    (listed _).mp (modelFiles_spec readable_library.wellFormed)
  refine ⟨readable_library, (loaded _).mpr ?_⟩
  have inOrder : modelFiles (.directory shelf) =
      [["a", "x.json"], ["a.json"], ["b.json", "c.json"]] := by
    rw [modelFiles, files_shelf]
    decide
  have loads {names : List String} {stem : String}
      (leads : (Tree.directory shelf).get? names = some (.file plainText.toUTF8))
      (called : Path.stem? (Path.within "models" names) = some stem)
      (parsed : parse plainText (some stem) = .ok (named stem)) :
      load library (Path.within "models" names) = .ok (named stem) := by
    rw [readable_library.load_within leads]
    exact ofBytes_of_parse (called ▸ parsed)
  rw [inOrder]
  exact .cons (loads rfl (by decide +kernel) (by cbv))
    (.cons (loads rfl (by decide +kernel) (by cbv))
      (.cons (loads rfl (by decide +kernel) (by cbv)) .nil))

end FieldRules.Model

namespace FieldRules

open Files

/-! Loading a file is parsing its text. What goes wrong is a matter of the file or of what a
definition must be, and never one of compiling a model that was read. -/

namespace Files.Disk

variable {bytes : ByteArray}

theorem textOf_of_invalid (invalid : ¬ bytes.IsValidUTF8) : textOf bytes = .error .notText := by
  have undecoded : String.fromUTF8? bytes = none := by
    rw [String.fromUTF8?, dif_neg]
    simpa using invalid
  rw [textOf, undecoded]

end Files.Disk

namespace Model

variable {disk : Disk} {path text : String} {bytes : ByteArray} {otherName : Option String}
  {model : Model} {cause : Error}

/-- How a problem of a model's text is told where the text comes from a file. -/
def inFile (path : String) : Error → Error
  | .document cause => .badModelFile path cause
  | other => other

theorem parse_error (failed : parse text otherName = .error cause) :
    cause = .noName ∨ ∃ problem, cause = .document problem := by
  rw [parse] at failed
  cases read : Reading.document layout.read text with
  | error problem =>
      rw [read] at failed
      cases failed
      exact .inr ⟨problem, rfl⟩
  | ok content =>
      rw [read] at failed
      replace failed : ofDocument content otherName = .error cause := failed
      unfold ofDocument at failed
      split at failed
      · cases failed
      · cases failed
        exact .inl rfl

theorem kind_inFile (failed : parse text otherName = .error cause) :
    (inFile path cause).kind = .invalidDefinition := by
  rcases parse_error failed with rfl | ⟨problem, rfl⟩
  · rfl
  · rfl

theorem ofBytes_toUTF8 (path text : String) :
    ofBytes path text.toUTF8 = (parse text (Path.stem? path)).mapError (inFile path) := by
  rw [ofBytes, Disk.textOf_toUTF8]
  simp only [mapError_ok, ok_bind]
  cases parse text (Path.stem? path) with
  | ok model => rfl
  | error cause =>
      cases cause with
      | document problem => rfl
      | _ => rfl

theorem ofBytes_of_invalid (invalid : ¬ bytes.IsValidUTF8) :
    ofBytes path bytes = .error (.file .notText) := by
  rw [ofBytes, Disk.textOf_of_invalid invalid]
  rfl

theorem isText_or_invalid (bytes : ByteArray) :
    (∃ text : String, text.toUTF8 = bytes) ∨ ¬ bytes.IsValidUTF8 := by
  by_cases valid : bytes.IsValidUTF8
  · exact .inl ⟨.ofByteArray bytes valid, rfl⟩
  · exact .inr valid

theorem ofBytes_error_kind (failed : ofBytes path bytes = .error cause) :
    cause.kind = .file ∨ cause.kind = .invalidDefinition := by
  rcases isText_or_invalid bytes with ⟨text, rfl⟩ | invalid
  · rw [ofBytes_toUTF8] at failed
    cases parsed : parse text (Path.stem? path) with
    | ok model =>
        rw [parsed] at failed
        cases failed
    | error problem =>
        rw [parsed] at failed
        cases failed
        exact .inr (kind_inFile parsed)
  · rw [ofBytes_of_invalid invalid] at failed
    cases failed
    exact .inl rfl

theorem load_of_readBytes (read : disk.readBytes path = .ok bytes) :
    load disk path = ofBytes path bytes := by
  rw [load, read]
  rfl

theorem load_of_unreadable {fault : FileError} (unread : disk.readBytes path = .error fault) :
    load disk path = .error (.file fault) := by
  rw [load, unread]
  rfl

theorem load_error_kind (failed : load disk path = .error cause) :
    cause.kind = .file ∨ cause.kind = .invalidDefinition := by
  cases read : disk.readBytes path with
  | error fault =>
      rw [load_of_unreadable read] at failed
      cases failed
      exact .inl rfl
  | ok bytes =>
      rw [load_of_readBytes read] at failed
      exact ofBytes_error_kind failed

theorem loadAll_error_kind (failed : loadAll disk path = .error cause) :
    cause.kind = .file ∨ cause.kind = .invalidDefinition := by
  rw [loadAll] at failed
  cases found : disk.tree path with
  | error fault =>
      rw [found] at failed
      cases failed
      exact .inr rfl
  | ok tree =>
      rw [found] at failed
      obtain ⟨_, file, _, _, _, refused⟩ := mapM_eq_error_iff.mp failed
      exact ofBytes_error_kind refused

theorem isCompileError_eq_false (kind : cause.kind = .file ∨ cause.kind = .invalidDefinition) :
    cause.isCompileError = false := by
  rcases kind with kind | kind
  · simp [Error.isCompileError, kind]
  · simp [Error.isCompileError, kind]

/-- A file that is a text is loaded as the text is parsed, and only the form of the document
makes a difference to what goes wrong. Whether a model compiles is another question. -/
theorem load_agrees_with_parse (disk : Disk) (path : String) :
    (∀ fault, disk.readBytes path = .error fault → load disk path = .error (.file fault)) ∧
    (∀ bytes, disk.readBytes path = .ok bytes → ¬ bytes.IsValidUTF8 →
      load disk path = .error (.file .notText)) ∧
    (∀ text : String, disk.readBytes path = .ok text.toUTF8 →
      (∀ model, load disk path = .ok model ↔ parse text (Path.stem? path) = .ok model) ∧
      ∀ cause, load disk path = .error cause ↔
        ∃ problem, parse text (Path.stem? path) = .error problem ∧
          cause = inFile path problem ∧ cause.kind = .invalidDefinition) ∧
    (∀ cause,
      load disk path = .error cause ∨ loadAll disk path = .error cause ∨
        (∃ text otherName, parse text otherName = .error cause) →
      cause.isCompileError = false) ∧
    ∀ (model : Model) (cause : Error), model.compile = .error cause →
      cause.isCompileError = true := by
  refine ⟨fun fault => load_of_unreadable, fun bytes read invalid => ?_, fun text read => ?_, ?_,
    fun model cause => ModelRules.isCompileError_of_compile⟩
  · rw [load_of_readBytes read, ofBytes_of_invalid invalid]
  · rw [load_of_readBytes read, ofBytes_toUTF8]
    refine ⟨fun model => mapError_eq_ok_iff, fun cause => ?_⟩
    cases parsed : parse text (Path.stem? path) with
    | ok model => simp
    | error problem =>
        constructor
        · rintro ⟨⟩
          exact ⟨problem, rfl, rfl, kind_inFile parsed⟩
        · rintro ⟨_, ⟨⟩, rfl, -⟩
          rfl
  · rintro cause (failed | failed | ⟨text, otherName, failed⟩)
    · exact isCompileError_eq_false (load_error_kind failed)
    · exact isCompileError_eq_false (loadAll_error_kind failed)
    · rcases parse_error failed with rfl | ⟨problem, rfl⟩
      · rfl
      · rfl

/-- A definition that gives its attributes twice, and a file that is no text. -/
def drafts : Disk where
  root := .directory [
    ("note.json", .file
      "\x7b\"attributes\":\x7b\x7d,\"attributes\":\x7b\x7d\x7d".toUTF8),
    ("scan.json", .file ⟨#[0xFF]⟩)]
  workingDirectory := []

theorem load_agrees_with_parse_drafts :
    load drafts "note.json" =
      .error (.badModelFile "note.json" (.repeatedMember "attributes")) ∧
    (Error.badModelFile "note.json" (.repeatedMember "attributes")).isCompileError = false ∧
    load drafts "scan.json" = .error (.file .notText) := by
  have note : drafts.readBytes "note.json" = .ok
      "\x7b\"attributes\":\x7b\x7d,\"attributes\":\x7b\x7d\x7d".toUTF8 :=
    Disk.readBytes_of_tree (Disk.tree_name (by decide) _)
  have scan : drafts.readBytes "scan.json" = .ok ⟨#[0xFF]⟩ :=
    Disk.readBytes_of_tree (Disk.tree_name (by decide) _)
  have stem : Path.stem? "note.json" = some "note" := by cbv
  have refused : parse "\x7b\"attributes\":\x7b\x7d,\"attributes\":\x7b\x7d\x7d" (some "note") =
      .error (.document (.repeatedMember "attributes")) := by cbv
  obtain ⟨-, -, text, families, -⟩ := load_agrees_with_parse drafts "note.json"
  have failed := ((text _ note).2 _).mpr ⟨_, stem ▸ refused, rfl, rfl⟩
  refine ⟨failed, families _ (.inl failed), ?_⟩
  exact (load_agrees_with_parse drafts "scan.json").2.1 _ scan (by decide)

end Model

end FieldRules
