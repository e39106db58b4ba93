import FieldRules.CommandLine.Outcome
import FieldRules.Proofs.Model.Loading
import FieldRules.Proofs.Settings.Layers

namespace FieldRules.CommandLine

open Files

/-! Compiling prints all of its results or none. Every model is loaded before the first of them
is compiled. -/

/-- The model files at or below a path, in the order of the names that lead to them. -/
structure ModelFilesAt (tree : Tree) (path : String) (files : List (List String)) : Prop where
  ordered : files.Pairwise (· < ·)
  mem_iff : ∀ names, names ∈ files ↔
    (∃ bytes, tree.get? names = some (.file bytes)) ∧ Model.isModelFile (Path.within path names)

/-- The files whose models are compiled: the file that is named, else those of the directory that
is named, else those of the directory in the settings. -/
inductive Selects (disk : Disk) (settings : Settings) :
    (file directory : Option String) → (paths : List String) → Prop
  | file (path : String) (directory : Option String) :
      Selects disk settings (some path) directory [path]
  | directory {path : String} {tree : Tree} {files : List (List String)}
      (found : disk.tree path = .ok tree) (listed : ModelFilesAt tree path files) :
      Selects disk settings none (some path) (files.map (Path.within path))
  | configured {path : String} {tree : Tree} {files : List (List String)}
      (set : settings.modelsDir = some path) (found : disk.tree path = .ok tree)
      (listed : ModelFilesAt tree path files) :
      Selects disk settings none none (files.map (Path.within path))

variable {disk : Disk} {settings : Settings} {file directory : Option String} {path : String}
  {tree : Tree} {files : List (List String)} {paths : List String}

/-- Every file holds a model and every model compiles. -/
def Compiled (disk : Disk) (paths : List String) (rules : List ModelRules) : Prop :=
  ∃ models, List.Forall₂ (fun path model => Model.load disk path = .ok model) paths models ∧
    List.Forall₂ (fun model rules => Model.compile model = .ok rules) models rules

/-- The first file that cannot be loaded decides the error, and the first model that cannot be
compiled only if there is no such file. -/
def StopsWith (disk : Disk) (paths : List String) (cause : Error) : Prop :=
  FirstFails (Model.load disk) paths cause ∨
    ∃ models, List.Forall₂ (fun path model => Model.load disk path = .ok model) paths models ∧
      FirstFails Model.compile models cause

def compileFiles (disk : Disk) (paths : List String) : Except Error (List ModelRules) :=
  paths.mapM (Model.load disk) >>= List.mapM Model.compile

theorem modelFilesAt_walked (wellFormed : tree.WellFormed) (path : String) :
    ModelFilesAt tree path ((tree.files.map Prod.fst).filter fun names =>
      Model.isModelFile (Path.within path names)) where
  ordered := (List.pairwise_map.mpr (Tree.files_ordered wellFormed)).filter _
  mem_iff names := by simp [← Tree.mem_files_iff wellFormed]

theorem ModelFilesAt.loadAll_eq (listed : ModelFilesAt tree path files)
    (wellFormed : tree.WellFormed) (found : disk.tree path = .ok tree) :
    Model.loadAll disk path = (files.map (Path.within path)).mapM (Model.load disk) := by
  have walked := modelFilesAt_walked wellFormed path
  obtain rfl := listed.ordered.eq_of_mem_iff walked.ordered fun names =>
    (listed.mem_iff names).trans (walked.mem_iff names).symm
  rw [Model.loadAll_eq_mapM_load wellFormed found, List.mapM_map]
  rfl

theorem wellFormed_of_found (wellFormed : disk.root.WellFormed)
    (found : disk.tree path = .ok tree) : tree.WellFormed := by
  obtain ⟨place, -, leads⟩ := Disk.tree_eq_ok_iff.mp found
  exact wellFormed.get? leads

theorem selectModels_none (disk : Disk) (settings : Settings) (directory : Option String) :
    selectModels disk settings none directory =
      match directory <|> settings.modelsDir with
      | some path => (Model.loadAll disk path).mapError .rules
      | none => .error .noModels := by
  rw [selectModels.eq_def]
  cases directory <|> settings.modelsDir with
  | none => rfl
  | some path => rfl

theorem Selects.selectModels_eq (wellFormed : disk.root.WellFormed)
    (selects : Selects disk settings file directory paths) :
    selectModels disk settings file directory =
      (paths.mapM (Model.load disk)).mapError .rules := by
  have loaded {path tree files} (found : disk.tree path = .ok tree)
      (listed : ModelFilesAt tree path files) :
      Model.loadAll disk path = (files.map (Path.within path)).mapM (Model.load disk) :=
    listed.loadAll_eq (wellFormed_of_found wellFormed found) found
  cases selects with
  | file path directory =>
      rw [selectModels, List.mapM_cons]
      cases Model.load disk path with
      | error cause => rfl
      | ok model => rfl
  | directory found listed =>
      rw [← loaded found listed, selectModels_none]
      rfl
  | configured set found listed =>
      rw [← loaded found listed, selectModels_none, set]
      rfl

theorem Selects.compileModels_eq (wellFormed : disk.root.WellFormed)
    (selects : Selects disk settings file directory paths) :
    compileModels disk settings file directory = (compileFiles disk paths).mapError .rules := by
  rw [compileModels, selects.selectModels_eq wellFormed, compileFiles]
  cases paths.mapM (Model.load disk) with
  | error cause => rfl
  | ok models => rfl

/-- Where nothing is selected, a directory is missing or none is given. -/
theorem compileModels_of_not_selects (wellFormed : disk.root.WellFormed)
    (unselected : ¬ ∃ paths, Selects disk settings file directory paths) :
    ∃ failure, compileModels disk settings file directory = .error failure := by
  cases file with
  | some file => exact absurd ⟨_, .file file directory⟩ unselected
  | none =>
      have missing {path : String} (chosen : (directory <|> settings.modelsDir) = some path)
          (tree : Tree) : disk.tree path ≠ .ok tree := by
        intro found
        have listed := modelFilesAt_walked (wellFormed_of_found wellFormed found) path
        cases directory with
        | none => exact unselected ⟨_, .configured chosen found listed⟩
        | some directory =>
            cases chosen
            exact unselected ⟨_, .directory found listed⟩
      rw [compileModels, selectModels_none]
      cases chosen : directory <|> settings.modelsDir with
      | none => exact ⟨_, rfl⟩
      | some path =>
          cases found : disk.tree path with
          | ok tree => exact absurd found (missing chosen tree)
          | error fault =>
              simp only [Model.loadAll, found]
              exact ⟨_, rfl⟩

theorem compileFiles_eq_ok_iff {rules : List ModelRules} :
    compileFiles disk paths = .ok rules ↔ Compiled disk paths rules := by
  simp only [compileFiles, Compiled, bind_eq_ok_iff, mapM_eq_ok_iff]

theorem compileFiles_eq_error_iff {cause : Error} :
    compileFiles disk paths = .error cause ↔ StopsWith disk paths cause := by
  rw [compileFiles, StopsWith]
  simp only [← mapM_eq_error_iff, ← mapM_eq_ok_iff]
  cases paths.mapM (Model.load disk) with
  | error cause => simp
  | ok models => simp

theorem compileModels_eq_ok_iff {rules : List ModelRules} (wellFormed : disk.root.WellFormed) :
    compileModels disk settings file directory = .ok rules ↔
      ∃ paths, Selects disk settings file directory paths ∧ Compiled disk paths rules := by
  constructor
  · intro succeeded
    by_cases selected : ∃ paths, Selects disk settings file directory paths
    · obtain ⟨paths, selects⟩ := selected
      rw [selects.compileModels_eq wellFormed, mapError_eq_ok_iff] at succeeded
      exact ⟨paths, selects, compileFiles_eq_ok_iff.mp succeeded⟩
    · obtain ⟨failure, failed⟩ := compileModels_of_not_selects wellFormed selected
      rw [failed] at succeeded
      cases succeeded
  · rintro ⟨paths, selects, compiled⟩
    rw [selects.compileModels_eq wellFormed, compileFiles_eq_ok_iff.mpr compiled]
    rfl

theorem StopsWith.compileModels_eq {cause : Error} (stops : StopsWith disk paths cause)
    (wellFormed : disk.root.WellFormed) (selects : Selects disk settings file directory paths) :
    compileModels disk settings file directory = .error (.rules cause) := by
  rw [selects.compileModels_eq wellFormed, compileFiles_eq_error_iff.mpr stops]
  rfl

variable {environment : Environment} {words : List String} {arguments : Arguments}

theorem run_compile (asked : Invocation.ofArguments words = .run arguments)
    (command : arguments.command = .compile file directory)
    (configured : effectiveSettings disk environment arguments = .ok settings) :
    run disk environment words =
      match compileModels disk settings file directory with
      | .ok rules => ⟨0, renderAll settings.format rules ++ "\n", "", disk⟩
      | .error failure => ⟨1, "", "Error: " ++ failure.message ++ "\n", disk⟩ := by
  rw [run, asked]
  simp only [runCommand, configured, command, perform]
  cases compileModels disk settings file directory with
  | ok rules => rfl
  | error failure => rfl

theorem renderAll_of_length_ne_one {format : OutputFormat} {rules : List ModelRules}
    (several : rules.length ≠ 1) :
    renderAll format rules = format.render (.array (rules.map ModelRules.toJson)) := by
  match rules with
  | [] => rfl
  | [only] => exact absurd rfl several
  | _ :: _ :: _ => rfl

/-- With settings that load, the command prints the results for all the files that are selected,
in their order, or nothing at all. A single result stands by itself, any other number of them in
a list. Of what goes wrong, the first file that cannot be loaded counts before every model that
cannot be compiled. -/
theorem compile_all_or_nothing (wellFormed : disk.root.WellFormed)
    (asked : Invocation.ofArguments words = .run arguments)
    (command : arguments.command = .compile file directory)
    (configured : effectiveSettings disk environment arguments = .ok settings) :
    ((run disk environment words).status = 0 ↔
      ∃ paths rules, Selects disk settings file directory paths ∧ Compiled disk paths rules) ∧
    (∀ paths only, Selects disk settings file directory paths → Compiled disk paths [only] →
      (run disk environment words).output = settings.format.render only.toJson ++ "\n") ∧
    (∀ paths rules, Selects disk settings file directory paths → Compiled disk paths rules →
      rules.length ≠ 1 →
        (run disk environment words).output =
          settings.format.render (.array (rules.map ModelRules.toJson)) ++ "\n") ∧
    ((run disk environment words).status ≠ 0 →
      (run disk environment words).status = 1 ∧ (run disk environment words).output = "") ∧
    (∀ paths cause, Selects disk settings file directory paths → StopsWith disk paths cause →
      compileModels disk settings file directory = .error (.rules cause) ∧
        (run disk environment words).status = 1) ∧
    (file = none → directory = none → settings.modelsDir = none →
      compileModels disk settings file directory = .error .noModels ∧
        (run disk environment words).status = 1) := by
  have succeeds {rules : List ModelRules} :
      compileModels disk settings file directory = .ok rules ↔
        ∃ paths, Selects disk settings file directory paths ∧ Compiled disk paths rules :=
    compileModels_eq_ok_iff wellFormed
  have fails {failure : Failure}
      (failed : compileModels disk settings file directory = .error failure) :
      compileModels disk settings file directory = .error failure ∧
        (run disk environment words).status = 1 := by
    rw [run_compile asked command configured, failed]
    exact ⟨rfl, rfl⟩
  refine ⟨?_, fun paths only selects compiled => ?_, fun paths rules selects compiled several => ?_,
    fun failed => ?_, fun paths cause selects stops => ?_, fun noFile noDirectory unset => ?_⟩
  · rw [run_compile asked command configured]
    cases outcome : compileModels disk settings file directory with
    | ok rules =>
        obtain ⟨paths, selects, compiled⟩ := succeeds.mp outcome
        exact iff_of_true rfl ⟨paths, rules, selects, compiled⟩
    | error failure =>
        refine iff_of_false (by simp) ?_
        rintro ⟨paths, rules, selects, compiled⟩
        rw [succeeds.mpr ⟨paths, selects, compiled⟩] at outcome
        cases outcome
  · rw [run_compile asked command configured, succeeds.mpr ⟨paths, selects, compiled⟩]
    rfl
  · rw [run_compile asked command configured, succeeds.mpr ⟨paths, selects, compiled⟩]
    exact congrArg (· ++ "\n") (renderAll_of_length_ne_one several)
  · rw [run_compile asked command configured] at failed ⊢
    cases outcome : compileModels disk settings file directory with
    | ok rules => simp [outcome] at failed
    | error failure => exact ⟨rfl, rfl⟩
  · exact fails (stops.compileModels_eq wellFormed selects)
  · refine fails ?_
    rw [noFile, noDirectory, compileModels, selectModels_none, unset]
    rfl

/-- A model that compiles, one with an attribute that has no type, and a file that is no text. -/
def batch : List (String × Tree) :=
  [("a.json", .file "\x7b\"attributes\":\x7b\x7d\x7d".toUTF8),
    ("b.json", .file "\x7b\"attributes\":\x7b\"id\":\x7b\x7d\x7d\x7d".toUTF8),
    ("c.json", .file ⟨#[0xFF]⟩)]

/-- Two models that compile. -/
def pair : List (String × Tree) :=
  [("a.json", .file "\x7b\"attributes\":\x7b\x7d\x7d".toUTF8),
    ("b.json", .file "\x7b\"attributes\":\x7b\x7d\x7d".toUTF8)]

def batchDisk : Disk := ⟨.directory [("models", .directory batch), ("pair", .directory pair)], []⟩

theorem wellFormed_batch : (Tree.directory batch).WellFormed := by
  have names : ∀ name ∈ ["a.json", "b.json", "c.json"], Path.IsName name := by decide
  refine .directory ?_ ?_ ?_
  · simp [Entries.Distinct, batch]
  · simp [batch, names]
  · simp [batch, Tree.WellFormed.file]

theorem wellFormed_pair : (Tree.directory pair).WellFormed := by
  have names : ∀ name ∈ ["a.json", "b.json"], Path.IsName name := by decide
  refine .directory ?_ ?_ ?_
  · simp [Entries.Distinct, pair]
  · simp [pair, names]
  · simp [pair, Tree.WellFormed.file]

theorem wellFormed_batchDisk : batchDisk.root.WellFormed := by
  have names : ∀ name ∈ ["models", "pair"], Path.IsName name := by decide
  refine .directory ?_ ?_ ?_
  · simp [Entries.Distinct]
  · simp [names]
  · simp [wellFormed_batch, wellFormed_pair]

/-- A directory of the disk, whose path does not end with a slash. -/
structure Folder (folder : String) (entries : List (String × Tree)) : Prop where
  found : batchDisk.tree folder = .ok (.directory entries)
  wellFormed : (Tree.directory entries).WellFormed
  named : folder ≠ "" ∧ folder.endsWith "/" = false

namespace Folder

variable {folder name path : String} {entries : List (String × Tree)}

theorem tree_at (inside : Folder folder entries) {inner : Tree}
    (entry : Entries.get? entries name = some inner) (isName : Path.IsName name)
    (spelled : folder ++ "/" ++ name = path) (short : Disk.canFollow path) :
    batchDisk.tree path = .ok inner := by
  have joined : Path.join folder name = path := by
    rw [Path.join, if_neg inside.named.1, if_neg (by simp [inside.named.2]), spelled]
  subst joined
  exact Disk.tree_join inside.found isName entry short

/-- A file in the directory is loaded as its text is parsed. -/
theorem load (inside : Folder folder entries) {text stem : String} {model : Model}
    (entry : Entries.get? entries name = some (.file text.toUTF8)) (isName : Path.IsName name)
    (spelled : folder ++ "/" ++ name = path) (short : Disk.canFollow path)
    (called : Path.stem? path = some stem) (parsed : Model.parse text (some stem) = .ok model) :
    Model.load batchDisk path = .ok model := by
  rw [Model.load_of_tree (inside.tree_at entry isName spelled short)]
  exact Model.ofBytes_of_parse (called ▸ parsed)

theorem selects (inside : Folder folder entries) {walked : List (List String)}
    {paths : List String} (settings : Settings)
    (files : (Tree.directory entries).files.map Prod.fst = walked)
    (spelled : (walked.filter fun names => Model.isModelFile (Path.within folder names)).map
      (Path.within folder) = paths) :
    Selects batchDisk settings none (some folder) paths := by
  subst files spelled
  exact .directory inside.found (modelFilesAt_walked inside.wellFormed folder)

end Folder

theorem folder_models : Folder "models" batch where
  found := Disk.tree_name (by decide) _
  wellFormed := wellFormed_batch
  named := by decide +kernel

theorem folder_pair : Folder "pair" pair where
  found := Disk.tree_name (by decide) _
  wellFormed := wellFormed_pair
  named := by decide +kernel

theorem selects_models (settings : Settings) : Selects batchDisk settings none (some "models")
    ["models/a.json", "models/b.json", "models/c.json"] :=
  folder_models.selects settings rfl (by decide +kernel)

theorem selects_pair (settings : Settings) : Selects batchDisk settings none (some "pair")
    ["pair/a.json", "pair/b.json"] :=
  folder_pair.selects settings rfl (by decide +kernel)

def named (name : String) : ModelRules := ⟨name, [], [], []⟩

theorem load_modelsA : Model.load batchDisk "models/a.json" = .ok ⟨"a", []⟩ := by
  have entry : Entries.get? batch "a.json" =
      some (.file "\x7b\"attributes\":\x7b\x7d\x7d".toUTF8) := rfl
  have stem : Path.stem? "models/a.json" = some "a" := by decide
  exact folder_models.load entry (by decide) (by decide) (by decide) stem (by cbv)

theorem compiled_a : Compiled batchDisk ["models/a.json"] [named "a"] :=
  ⟨_, .cons load_modelsA .nil, .cons rfl .nil⟩

theorem compiled_pair :
    Compiled batchDisk ["pair/a.json", "pair/b.json"] [named "a", named "b"] := by
  have entries : ∀ name ∈ ["a.json", "b.json"], Entries.get? pair name =
      some (.file "\x7b\"attributes\":\x7b\x7d\x7d".toUTF8) := by simp [pair]
  have stemA : Path.stem? "pair/a.json" = some "a" := by decide
  have stemB : Path.stem? "pair/b.json" = some "b" := by decide
  have loadedA : Model.load batchDisk "pair/a.json" = .ok ⟨"a", []⟩ :=
    folder_pair.load (entries "a.json" (by simp)) (by decide) (by decide) (by decide) stemA (by cbv)
  have loadedB : Model.load batchDisk "pair/b.json" = .ok ⟨"b", []⟩ :=
    folder_pair.load (entries "b.json" (by simp)) (by decide) (by decide) (by decide) stemB (by cbv)
  exact ⟨_, .cons loadedA (.cons loadedB .nil), .cons rfl (.cons rfl .nil)⟩

/-- The last file decides although the one before it holds a model that does not compile. -/
theorem stopsWith_batch : StopsWith batchDisk
    ["models/a.json", "models/b.json", "models/c.json"] (.file .notText) := by
  have untyped : Model.load batchDisk "models/b.json" = .ok ⟨"b", [("id", {})]⟩ := by
    have entry : Entries.get? batch "b.json" =
        some (.file "\x7b\"attributes\":\x7b\"id\":\x7b\x7d\x7d\x7d".toUTF8) := rfl
    have stem : Path.stem? "models/b.json" = some "b" := by decide
    exact folder_models.load entry (by decide) (by decide) (by decide) stem (by cbv)
  have unread : Model.load batchDisk "models/c.json" = .error (.file .notText) := by
    have entry : Entries.get? batch "c.json" = some (.file ⟨#[0xFF]⟩) := rfl
    have found : batchDisk.tree "models/c.json" = .ok (.file ⟨#[0xFF]⟩) :=
      folder_models.tree_at entry (by decide) (by decide) (by decide)
    rw [Model.load_of_tree found]
    exact Model.ofBytes_of_invalid (by decide)
  have fails : FirstFails (Model.load batchDisk) ["models/c.json"] (.file .notText) :=
    firstFails_cons_iff.mpr (.inl unread)
  exact .inl (firstFails_cons_iff.mpr (.inr ⟨⟨_, load_modelsA⟩,
    firstFails_cons_iff.mpr (.inr ⟨⟨_, untyped⟩, fails⟩)⟩))

theorem effectiveSettings_batchDisk (compact : Bool) (command : Command) :
    effectiveSettings batchDisk [] ⟨none, compact, command⟩ =
      .ok (if compact then { format := .compact } else {}) := by
  have loaded : Settings.load batchDisk [] none = .ok {} :=
    Settings.load_of_absent (by decide +kernel) rfl rfl
  rw [effectiveSettings, loaded]
  rfl

/-- A file that loads and compiles, a directory of which every file does, one of which some files
do not, and no word on what to compile. -/
theorem compile_all_or_nothing_batch :
    ((run batchDisk [] ["compile", "models/a.json"]).status = 0 ∧
      (run batchDisk [] ["compile", "models/a.json"]).output =
        "\x7b\n  \"modelName\": \"a\",\n  \"validators\": \x7b\x7d,\n  \"types\": \x7b\x7d,\n" ++
          "  \"nonNullableKeys\": []\n\x7d\n") ∧
    ((run batchDisk [] ["--compact", "compile", "--dir", "pair"]).status = 0 ∧
      (run batchDisk [] ["--compact", "compile", "--dir", "pair"]).output =
        "[\x7b\"modelName\":\"a\",\"validators\":\x7b\x7d,\"types\":\x7b\x7d," ++
          "\"nonNullableKeys\":[]\x7d,\x7b\"modelName\":\"b\",\"validators\":\x7b\x7d," ++
          "\"types\":\x7b\x7d,\"nonNullableKeys\":[]\x7d]\n") ∧
    ((run batchDisk [] ["compile", "--dir", "models"]).status = 1 ∧
      (run batchDisk [] ["compile", "--dir", "models"]).output = "" ∧
      compileModels batchDisk {} none (some "models") = .error (.rules (.file .notText))) ∧
    ((run batchDisk [] ["compile"]).status = 1 ∧ (run batchDisk [] ["compile"]).output = "") := by
  refine ⟨?_, ?_, ?_, ?_⟩
  · obtain ⟨succeeds, single, -⟩ := compile_all_or_nothing wellFormed_batchDisk
      (show Invocation.ofArguments ["compile", "models/a.json"] =
        .run ⟨none, false, .compile (some "models/a.json") none⟩ by decide)
      rfl (effectiveSettings_batchDisk _ _)
    refine ⟨succeeds.mpr ⟨_, _, .file _ _, compiled_a⟩,
      (single _ _ (.file _ _) compiled_a).trans ?_⟩
    decide
  · obtain ⟨succeeds, -, several, -⟩ := compile_all_or_nothing wellFormed_batchDisk
      (show Invocation.ofArguments ["--compact", "compile", "--dir", "pair"] =
        .run ⟨none, true, .compile none (some "pair")⟩ by decide)
      rfl (effectiveSettings_batchDisk _ _)
    refine ⟨succeeds.mpr ⟨_, _, selects_pair _, compiled_pair⟩,
      (several _ _ (selects_pair _) compiled_pair (by decide)).trans ?_⟩
    decide
  · obtain ⟨-, -, -, fails, stops, -⟩ := compile_all_or_nothing wellFormed_batchDisk
      (show Invocation.ofArguments ["compile", "--dir", "models"] =
        .run ⟨none, false, .compile none (some "models")⟩ by decide)
      rfl (effectiveSettings_batchDisk _ _)
    obtain ⟨cause, failed⟩ := stops _ _ (selects_models _) stopsWith_batch
    exact ⟨failed, (fails (by rw [failed]; decide)).2, cause⟩
  · obtain ⟨-, -, -, fails, -, unset⟩ := compile_all_or_nothing wellFormed_batchDisk
      (show Invocation.ofArguments ["compile"] = .run ⟨none, false, .compile none none⟩
        by decide)
      rfl (effectiveSettings_batchDisk _ _)
    obtain ⟨-, failed⟩ := unset rfl rfl rfl
    exact ⟨failed, (fails (by rw [failed]; decide)).2⟩

end FieldRules.CommandLine
