import FieldRules.Proofs.Files.Writing
import FieldRules.Proofs.Settings.Layers
import FieldRules.Proofs.Toml.Document

namespace FieldRules.Settings

open Files Toml

variable {settings : Settings}

def dirLine (settings : Settings) (rest : List Char) : List Char :=
  match settings.modelsDir with
  | none => rest
  | some dir => entryLine "dir" (Toml.quote dir).toList rest

/-- The layer that saved settings are. A directory that is not set has no entry. -/
def savedLayer (settings : Settings) : List (String × Setting) :=
  [("output", .table [("format", .text settings.format.name)]),
    ("models", .table (settings.modelsDir.toList.map fun dir => ("dir", .text dir))),
    ("export", .table [("include_extensions", .bool settings.includeExtensions)])]

theorem toList_toToml (settings : Settings) :
    settings.toToml.toList =
      headerLine "output" (entryLine "format" (Toml.quote settings.format.name).toList
        ('\n' :: headerLine "models" (settings.dirLine
          ('\n' :: headerLine "export" (entryLine "include_extensions"
            (if settings.includeExtensions then "true" else "false").toList []))))) := by
  have quoted : Toml.quote settings.format.name = "\"" ++ settings.format.name ++ "\"" := by
    cases settings.format with
    | pretty => rfl
    | compact => rfl
  unfold toToml dirLine
  generalize Toml.quote settings.format.name = format at quoted ⊢
  subst quoted
  generalize settings.format.name = name
  generalize (if settings.includeExtensions then "true" else "false") = flag
  cases settings.modelsDir with
  | none => simp [headerLine, entryLine]
  | some dir =>
      generalize Toml.quote dir = written
      simp [headerLine, entryLine]

/-- A table with a header of its own. -/
def headed (entries : List (String × Node)) : Node := .table false false entries

def formatTable (settings : Settings) : Node :=
  headed [("format", .value (.text settings.format.name))]

def dirTable (settings : Settings) : Node :=
  headed (settings.modelsDir.toList.map fun dir => ("dir", .value (.text dir)))

def extensionsTable (settings : Settings) : Node :=
  headed [("include_extensions", .value (.bool settings.includeExtensions))]

theorem bareName_of_all {name : String} (present : name.toList ≠ [])
    (bare : name.toList.all isBareKeyChar) : BareName name :=
  ⟨present, List.all_eq_true.mp bare⟩

/-- The lines of the directory, of which there may be none, take no more than one step. -/
theorem lines_dirLine (settings : Settings) (fuel : Nat) (rest : List Char) :
    ∃ more, fuel ≤ more ∧ lines (fuel + 1)
        ⟨headed [("output", settings.formatTable), ("models", .opened)], ["models"]⟩
        (settings.dirLine rest) =
      lines more ⟨headed [("output", settings.formatTable), ("models", settings.dirTable)],
        ["models"]⟩ rest := by
  cases isDir : settings.modelsDir with
  | none => exact ⟨fuel + 1, by omega, by simp only [dirLine, dirTable, isDir]; rfl⟩
  | some dir =>
      have inserted : (headed [("output", settings.formatTable), ("models", .opened)]).descend
          false (Node.insert ["dir"] (.text dir)) ["models"] =
          some (headed [("output", settings.formatTable), ("models", settings.dirTable)]) := by
        simp only [dirTable, isDir]
        rfl
      refine ⟨fuel, le_rfl, ?_⟩
      simp only [dirLine, isDir]
      exact lines_entryLine (bareName_of_all (by decide) (by decide)) (writesValue_quote dir)
        inserted fuel rest

theorem lines_toToml (settings : Settings) (fuel : Nat) :
    lines (fuel + 7) ⟨.opened, []⟩ settings.toToml.toList =
      some (headed [("output", settings.formatTable), ("models", settings.dirTable),
        ("export", settings.extensionsTable)]) := by
  have output : Node.openTable ["output"] .opened = some (headed [("output", .opened)]) := rfl
  have format : (headed [("output", .opened)]).descend false
      (Node.insert ["format"] (.text settings.format.name)) ["output"] =
      some (headed [("output", settings.formatTable)]) := rfl
  have models : (headed [("output", settings.formatTable)]).openTable ["models"] =
      some (headed [("output", settings.formatTable), ("models", .opened)]) := rfl
  have exports : (headed [("output", settings.formatTable),
      ("models", settings.dirTable)]).openTable ["export"] =
      some (headed [("output", settings.formatTable), ("models", settings.dirTable),
        ("export", .opened)]) := rfl
  have extensions : (headed [("output", settings.formatTable), ("models", settings.dirTable),
      ("export", .opened)]).descend false
      (Node.insert ["include_extensions"] (.bool settings.includeExtensions)) ["export"] =
      some (headed [("output", settings.formatTable), ("models", settings.dirTable),
        ("export", settings.extensionsTable)]) := rfl
  rw [toList_toToml, (lines_headerLine (bareName_of_all (by decide) (by decide)) output _ _).1,
    lines_entryLine (bareName_of_all (by decide) (by decide)) (writesValue_quote _) format,
    (lines_headerLine (bareName_of_all (by decide) (by decide)) models _ _).2]
  obtain ⟨more, enough, dir⟩ := lines_dirLine settings (fuel + 3) ('\n' ::
    headerLine "export" (entryLine "include_extensions"
      (if settings.includeExtensions then "true" else "false").toList []))
  obtain ⟨more, rfl⟩ : ∃ left, more = left + 3 := ⟨more - 3, by omega⟩
  rw [dir, (lines_headerLine (bareName_of_all (by decide) (by decide)) exports _ _).2,
    lines_entryLine (bareName_of_all (by decide) (by decide)) (writesValue_bool _) extensions,
    lines_nil]

theorem toSetting_dirTable (settings : Settings) :
    settings.dirTable.toSetting =
      .table (settings.modelsDir.toList.map fun dir => ("dir", .text dir)) := by
  rw [dirTable]
  cases settings.modelsDir with
  | none => rfl
  | some dir => rfl

theorem parse_toToml (settings : Settings) :
    Toml.parse? settings.toToml = some settings.savedLayer := by
  obtain ⟨fuel, enough⟩ : ∃ fuel, settings.toToml.length + 1 = fuel + 7 := by
    have long : 6 ≤ settings.toToml.length := by
      rw [← String.length_toList, toList_toToml]
      simp [headerLine]
    exact ⟨settings.toToml.length - 6, by omega⟩
  have unmarked : afterMark settings.toToml.toList = settings.toToml.toList := by
    rw [toList_toToml]
    rfl
  rw [Toml.parse?, enough, unmarked, lines_toToml, savedLayer, ← toSetting_dirTable]
  rfl

end FieldRules.Settings

namespace FieldRules.Settings

open Files Setting

/-! Saved settings are read over the files that are looked for in any case. What is not set is
not saved, and there these files decide. -/

variable {disk saved : Disk} {environment : Environment} {path dir : String}
  {settings : Settings} {layers : List (List (String × Setting))} {below : Entries Setting}

theorem loweredEntries_savedLayer (settings : Settings) :
    loweredEntries settings.savedLayer = settings.savedLayer := by
  have lower : ∀ name ∈ ["output", "format", "models", "dir", "export", "include_extensions"],
      name.toLower = name := by decide +kernel
  rw [savedLayer]
  cases settings.modelsDir with
  | none => simp [loweredEntries, lowered, lower]
  | some dir => simp [loweredEntries, lowered, lower]

/-- The layers below with the saved section for the format, and with the one for the directory. -/
def withOutput (below : Entries Setting) (settings : Settings) : Entries Setting :=
  layEntry below ("output", .table [("format", .text settings.format.name)])

def withModels (below : Entries Setting) (settings : Settings) : Entries Setting :=
  layEntry (withOutput below settings)
    ("models", .table (settings.modelsDir.toList.map fun dir => ("dir", .text dir)))

theorem layOver_savedLayer (below : Entries Setting) (settings : Settings) :
    layOver below settings.savedLayer = layEntry (withModels below settings)
      ("export", .table [("include_extensions", .bool settings.includeExtensions)]) := by
  rw [layOver_eq, loweredEntries_savedLayer]
  rfl

theorem stepsOf_titles : stepsOf "output" = [.name "output"] ∧
    stepsOf "models" = [.name "models"] ∧ stepsOf "export" = [.name "export"] :=
  ⟨rfl, rfl, rfl⟩

theorem apart_models (part : String) : Apart "output" part (stepsOf "models") :=
  stepsOf_titles.2.1 ▸ .elsewhere (by decide)

theorem apart_export {title : String} (differs : "export" ≠ title) (part : String) :
    Apart title part (stepsOf "export") :=
  stepsOf_titles.2.2 ▸ .elsewhere differs

theorem holds_format (below : Entries Setting) (settings : Settings) :
    Holds (layOver below settings.savedLayer) "output" "format" (.text settings.format.name) := by
  rw [layOver_savedLayer]
  have given : Holds (withOutput below settings) "output" "format" (.text settings.format.name) :=
    holds_layEntry_section stepsOf_titles.1 nofun
  exact (given.layEntry (apart_models _)).layEntry (apart_export (by decide) _)

theorem holds_extensions (below : Entries Setting) (settings : Settings) :
    Holds (layOver below settings.savedLayer) "export" "include_extensions"
      (.bool settings.includeExtensions) := by
  rw [layOver_savedLayer]
  exact holds_layEntry_section stepsOf_titles.2.2 nofun

theorem holds_dir (below : Entries Setting) (isDir : settings.modelsDir = some dir) :
    Holds (layOver below settings.savedLayer) "models" "dir" (.text dir) := by
  rw [layOver_savedLayer, withModels, isDir]
  have given : Holds (layEntry (withOutput below settings)
      ("models", .table [("dir", .text dir)])) "models" "dir" (.text dir) :=
    holds_layEntry_section stepsOf_titles.2.1 nofun
  exact given.layEntry (apart_export (by decide) _)

/-- Where no directory is saved, the section is what it was below. -/
theorem get?_models (below : Entries Setting) (noDir : settings.modelsDir = none) :
    Entries.get? (layOver below settings.savedLayer) "models" =
      some ((Entries.get? below "models").getD (.table [])) := by
  obtain ⟨output, models, exports⟩ := stepsOf_titles
  have same : Entries.get? (withOutput below settings) "models" = Entries.get? below "models" :=
    get?_layEntry_of_ne output (by decide)
  have put : withModels below settings = (withOutput below settings).put "models"
      (((withOutput below settings).get? "models").getD (.table [])) := by
    rw [withModels, noDir, layEntry, models, ← merge_table_nil]
    rfl
  rw [layOver_savedLayer, get?_layEntry_of_ne exports (by decide), put, Entries.get?_put,
    if_pos rfl, same]

/-- The directory that sections give; nothing if what they give cannot be one. -/
def dirIn? (sections : Entries Setting) : Option (Option String) :=
  readSection (.table sections) 1 "models" none readDir

theorem dirIn?_savedLayer (below : Entries Setting) (settings : Settings) :
    dirIn? (layOver below settings.savedLayer) =
      (settings.modelsDir.map some <|> dirIn? below) := by
  cases isDir : settings.modelsDir with
  | some dir => exact readSection_dir (holds_dir below isDir) rfl
  | none =>
      rw [dirIn?, readSection_of_titled (get?_models below isDir)]
      cases titled : Entries.get? below "models" with
      | none => simp [dirIn?, readSection, part?, titled, readDir, Entries.get?]
      | some section? => simp [dirIn?, readSection_of_titled titled]

theorem ofSetting?_savedLayer (below : Entries Setting) (settings : Settings) :
    ofSetting? (.table (layOver below settings.savedLayer)) =
      (settings.modelsDir.map some <|> dirIn? below).map fun dir =>
        { settings with modelsDir := dir } := by
  have format : readSection (.table (layOver below settings.savedLayer)) 0 "output" .pretty
      readFormat = some settings.format := by
    obtain ⟨parts, titled, held⟩ := holds_format below settings
    have read : readFormat (.table parts) = some settings.format := by
      rw [readFormat, part?, held]
      cases settings.format with
      | pretty => decide +kernel
      | compact => decide +kernel
    rw [readSection_of_titled titled, read]
  have extensions : readSection (.table (layOver below settings.savedLayer)) 2 "export" true
      readExtensions = some settings.includeExtensions := by
    obtain ⟨parts, titled, held⟩ := holds_extensions below settings
    have read : readExtensions (.table parts) = some settings.includeExtensions := by
      rw [readExtensions, part?, held]
      rfl
    rw [readSection_of_titled titled, read]
  have dir := dirIn?_savedLayer below settings
  rw [dirIn?] at dir
  rw [ofSetting?, format, extensions, dir]
  cases settings.modelsDir.map some <|> dirIn? below with
  | none => rfl
  | some dir => rfl

theorem endsIn_of_toml {before : List String} {stem : String}
    (spelled : Path.parts path = before ++ [stem ++ ".toml"]) :
    Path.EndsIn path before (stem ++ ".toml") := by
  have long : 5 ≤ (stem ++ ".toml").length := by
    rw [String.length_append]
    exact Nat.le_add_left 5 _
  have differs {short : String} (isShort : short.length < 5) : stem ++ ".toml" ≠ short := by
    intro same
    rw [same] at long
    omega
  exact ⟨spelled, differs (by decide), differs (by decide), differs (by decide)⟩

theorem source?_toml {text : String} (isFile : disk.isFile path)
    (named : Path.extension? path = some "toml") (read : disk.readText path = .ok text) :
    source? disk path = some (.toml, text) := by
  have found : (candidates path).find? disk.isFile = some path := List.find?_cons_of_pos isFile
  have known : FileFormat.ofExtension? "toml" = some .toml := by decide
  rw [source?, found]
  simp [named, known, read, Except.toOption]

/-- A path that ends with the extension has it, unless there is nothing before it. -/
theorem source?_saved (wrote : save disk settings path = .ok saved) (toml : path.endsWith ".toml") :
    source? saved path =
      if Path.fileName? path = some ".toml" then none else some (.toml, settings.toToml) := by
  obtain ⟨before, stem, spelled, -, -⟩ := Path.parts_of_endsWith (by decide) toml
  have ends := endsIn_of_toml spelled
  obtain ⟨isFile, text⟩ := Disk.readText_of_writeText ends wrote
  by_cases empty : stem = ""
  · subst empty
    have bareName : Path.fileName? path = some ".toml" := ends.fileName?
    have noExtension : Path.extension? path = none := by
      rw [Path.extension?, bareName]
      rfl
    have found : (candidates path).find? saved.isFile = some path :=
      List.find?_cons_of_pos isFile
    rw [source?, found]
    simp [bareName, noExtension]
  · have named : Path.extension? path = some "toml" := by
      rw [Path.extension?, ends.fileName?]
      refine (Path.splitName_extension_iff (by decide)).mpr ⟨stem, empty, ?_⟩
      rw [String.append_assoc]
      rfl
    have notBare : Path.fileName? path ≠ some ".toml" := by
      intro isBare
      have same : stem ++ ".toml" = "" ++ ".toml" :=
        Option.some.inj (ends.fileName?.symm.trans isBare)
      exact empty ((String.append_left_inj _).mp same)
    rw [if_neg notBare, source?_toml isFile named text]

theorem layerOf_toToml (settings : Settings) :
    layerOf (.toml, settings.toToml) = .ok settings.savedLayer := by
  simp only [layerOf, FileFormat.read?, parse_toToml]

theorem requiredLayer_saved (wrote : save disk settings path = .ok saved)
    (toml : path.endsWith ".toml") :
    requiredLayer saved path =
      if Path.fileName? path = some ".toml" then .error .settings
      else .ok settings.savedLayer := by
  rw [requiredLayer, source?_saved wrote toml]
  by_cases isBare : Path.fileName? path = some ".toml"
  · rw [if_pos isBare, if_pos isBare]
  · rw [if_neg isBare, if_neg isBare]
    exact layerOf_toToml settings

/-- The directory that layers give; nothing if what they give cannot be one. -/
def dirOf? (layers : List (List (String × Setting))) : Option (Option String) :=
  dirIn? (merged layers)

theorem variableLayer_of_unset (unset : ∀ entry ∈ environment, variableKey? entry.1 = none) :
    variableLayer environment = [] :=
  List.filterMap_eq_nil_iff.mpr fun entry member => congrArg (Option.map _) (unset entry member)

theorem load_saved (wrote : save disk settings path = .ok saved) (toml : path.endsWith ".toml")
    (unset : ∀ entry ∈ environment, variableKey? entry.1 = none)
    (defaults : defaultLayers saved environment = .ok layers) :
    load saved environment (some path) =
      if Path.fileName? path = some ".toml" then .error .settings
      else match settings.modelsDir.map some <|> dirOf? layers with
        | some dir => .ok { settings with modelsDir := dir }
        | none => .error .settings := by
  have overLayers : merged (layers ++ [settings.savedLayer, []]) =
      layOver (merged layers) settings.savedLayer := by
    rw [merged, List.foldl_append]
    rfl
  rw [load_eq, defaults, chosenLayer, requiredLayer_saved wrote toml,
    variableLayer_of_unset unset]
  by_cases isBare : Path.fileName? path = some ".toml"
  · rw [if_pos isBare, if_pos isBare]
    rfl
  · rw [if_neg isBare, if_neg isBare, dirOf?]
    simp only [ok_bind, overLayers, ofSetting?_savedLayer]
    cases settings.modelsDir.map some <|> dirIn? (merged layers) with
    | none => rfl
    | some dir => rfl

theorem dirOf?_of_load (unset : ∀ entry ∈ environment, variableKey? entry.1 = none)
    (defaults : defaultLayers saved environment = .ok layers) {lower : Settings}
    (loaded : load saved environment none = .ok lower) : dirOf? layers = some lower.modelsDir := by
  have overLayers : merged (layers ++ [[], []]) = merged layers := by
    rw [merged, List.foldl_append]
    rfl
  rw [load_eq, defaults, chosenLayer, variableLayer_of_unset unset] at loaded
  simp only [ok_bind, overLayers] at loaded
  split at loaded
  · next settled =>
      cases loaded
      exact (ofSetting?_eq_some_iff.mp settled).2.1
  · cases loaded

/-- What was saved is loaded again if no directory has to be masked. All but the directory is as it
was saved wherever loading succeeds, which it does if the files below can be loaded. -/
theorem load_saved_iff (wrote : save disk settings path = .ok saved)
    (toml : path.endsWith ".toml")
    (unset : ∀ entry ∈ environment, variableKey? entry.1 = none)
    (defaults : defaultLayers saved environment = .ok layers) :
    (load saved environment (some path) = .ok settings ↔
      Path.fileName? path ≠ some ".toml" ∧
        (settings.modelsDir = none → dirOf? layers = some none)) ∧
    (∀ loaded, load saved environment (some path) = .ok loaded →
      loaded.format = settings.format ∧
      loaded.includeExtensions = settings.includeExtensions ∧
      ∀ dir, settings.modelsDir = some dir → loaded.modelsDir = some dir) ∧
    ∀ lower, load saved environment none = .ok lower → Path.fileName? path ≠ some ".toml" →
      load saved environment (some path) =
        .ok { settings with modelsDir := settings.modelsDir <|> lower.modelsDir } := by
  rw [load_saved wrote toml unset defaults]
  refine ⟨?_, fun loaded isLoaded => ?_, fun lower isLower named => ?_⟩
  · by_cases isBare : Path.fileName? path = some ".toml"
    · simp [isBare]
    · rw [if_neg isBare]
      cases isDir : settings.modelsDir with
      | some dir =>
          have same : { settings with modelsDir := some dir } = settings := by rw [← isDir]
          exact iff_of_true (congrArg Except.ok same) ⟨isBare, nofun⟩
      | none =>
          cases below : dirOf? layers with
          | none => simp
          | some dir =>
              refine ⟨fun same => ⟨isBare, fun _ => ?_⟩, fun unnamed => ?_⟩
              · have isSame : dir = settings.modelsDir :=
                  congrArg Settings.modelsDir (Except.ok.inj same)
                rw [isSame, isDir]
              · obtain rfl := Option.some.inj (unnamed.2 rfl)
                have same : { settings with modelsDir := none } = settings := by rw [← isDir]
                exact congrArg Except.ok same
  · split at isLoaded
    · cases isLoaded
    · split at isLoaded
      · next chosen =>
          cases isLoaded
          refine ⟨rfl, rfl, fun dir isDir => ?_⟩
          rw [isDir] at chosen
          exact (Option.some.inj chosen).symm
      · cases isLoaded
  · rw [dirOf?_of_load unset defaults isLower, if_neg named]
    cases settings.modelsDir with
    | none => rfl
    | some dir => rfl

/-- A directory that is set for everyone, by a file that is looked for in any case. -/
def shared : Settings := { modelsDir := some "base" }

def sharedFiles : List (String × Tree) := [("validators.toml", .file shared.toToml.toUTF8)]

def beside (settings : Settings) : Disk :=
  ⟨.directory (Entries.putSorted sharedFiles "out.toml" (.file settings.toToml.toUTF8)), []⟩

theorem save_beside (settings : Settings) :
    save ⟨.directory sharedFiles, []⟩ settings "out.toml" = .ok (beside settings) :=
  Disk.writeText_name (by decide) rfl settings.toToml

def own : Settings := { format := .compact, modelsDir := some "own" }

theorem defaultLayers_beside :
    ∀ settings ∈ [own, {}], defaultLayers (beside settings) [] =
      .ok [shared.savedLayer, [], [], []] := by
  have absent : ∀ settings ∈ [own, {}], ∀ file ∈ [".validators.toml", "config/validators.toml"],
      (candidates file).find? (beside settings).isFile = none := by decide +kernel
  intro settings member
  have first : optionalLayer (beside settings) "validators.toml" = .ok shared.savedLayer := by
    have found : (beside settings).tree "validators.toml" =
        .ok (.file shared.toToml.toUTF8) := by
      rw [beside, Disk.tree_name (by decide), Entries.get?_putSorted]
      rfl
    obtain ⟨isFile, text⟩ := Disk.readText_of_tree found
    rw [optionalLayer, source?_toml isFile (by decide) text]
    exact layerOf_toToml shared
  have others := absent settings member
  simp only [List.forall_mem_cons] at others
  rw [defaultLayers, localFiles, List.mapM_cons, first, List.mapM_cons,
    optionalLayer_of_absent others.1, List.mapM_cons, optionalLayer_of_absent others.2.1]
  rfl

theorem load_beside : ∀ settings ∈ [own, {}], load (beside settings) [] none = .ok shared := by
  intro settings member
  have onlyShared : merged ([shared.savedLayer, [], [], []] ++ [[], variableLayer []]) =
      layOver [] shared.savedLayer := rfl
  rw [load_eq, defaultLayers_beside settings member]
  simp only [ok_bind, chosenLayer, onlyShared, ofSetting?_savedLayer]
  rfl

theorem out_named : "out.toml".endsWith ".toml" ∧ Path.fileName? "out.toml" ≠ some ".toml" := by
  decide +kernel

theorem load_saved_iff_own :
    save ⟨.directory sharedFiles, []⟩ own "out.toml" = .ok (beside own) ∧
    load (beside own) [] none = .ok shared ∧ load (beside own) [] (some "out.toml") = .ok own := by
  refine ⟨save_beside own, load_beside own (by simp), ?_⟩
  exact (load_saved_iff (save_beside own) out_named.1 (List.forall_mem_nil _)
    (defaultLayers_beside own (by simp))).1.mpr ⟨out_named.2, nofun⟩

/-- That no directory is set cannot be saved, and then the one that is set for everyone counts. -/
theorem unsetDir_lost :
    save ⟨.directory sharedFiles, []⟩ {} "out.toml" = .ok (beside {}) ∧
    load (beside {}) [] none = .ok shared ∧ load (beside {}) [] (some "out.toml") ≠ .ok {} := by
  have lower := load_beside {} (by simp)
  have dir := dirOf?_of_load (List.forall_mem_nil _) (defaultLayers_beside {} (by simp)) lower
  refine ⟨save_beside {}, lower, ?_⟩
  rw [load_saved (save_beside {}) out_named.1 (List.forall_mem_nil _)
    (defaultLayers_beside {} (by simp)), if_neg out_named.2, dir]
  intro same
  have sameDir := congrArg Settings.modelsDir (Except.ok.inj same)
  cases sameDir

end FieldRules.Settings
