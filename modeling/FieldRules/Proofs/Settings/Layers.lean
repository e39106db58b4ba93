import FieldRules.Proofs.Reading.Keeps
import FieldRules.Settings.Layers

namespace FieldRules

open Files

/-! A layer changes the places that it names and leaves the others alone, so the last layer that
names a place decides what is there. -/

namespace Setting

variable {entries : Entries Setting} {title part name : String} {value : Setting}
  {rest : List Step}

/-- A part of a section has a value. -/
def Holds (entries : Entries Setting) (title part : String) (value : Setting) : Prop :=
  ∃ parts, entries.get? title = some (.table parts) ∧ Entries.get? parts part = some value

/-- Steps that lead neither to a part of a section nor to the section as a whole. -/
inductive Apart (title part : String) : List Step → Prop
  | elsewhere {name : String} {rest : List Step} (differs : name ≠ title) :
      Apart title part (.name name :: rest)
  | beside {name : String} {rest : List Step} (differs : name ≠ part) :
      Apart title part (.name title :: .name name :: rest)

/-- A value that is not merged into what was there but takes its place. -/
def Replaces (value : Setting) : Prop := ∀ incoming, value ≠ .table incoming

/-- What one entry of a layer makes of the entries below it. -/
def layEntry (below : Entries Setting) (entry : String × Setting) : Entries Setting :=
  (putAt entry.2 (stepsOf entry.1) (.table below)).entries

theorem layOver_eq (below : Entries Setting) (layer : List (String × Setting)) :
    layOver below layer = (loweredEntries layer).foldl layEntry below := rfl

theorem loweredEntries_eq (layer : List (String × Setting)) :
    loweredEntries layer = layer.map fun entry => (entry.1.toLower, lowered entry.2) := by
  induction layer with
  | nil => rfl
  | cons entry rest ih => rw [loweredEntries, ih, List.map_cons]

theorem merge_of_replaces (replaces : value.Replaces) :
    merge entries name value = entries.put name value := by
  cases value with
  | table incoming => exact absurd rfl (replaces incoming)
  | _ => rfl

theorem get?_merge_of_ne {other : String} (differs : other ≠ name) :
    Entries.get? (merge entries name value) other = entries.get? other := by
  cases value with
  | table parts =>
      rw [merge]
      simp [Entries.get?_put, differs]
  | _ =>
      rw [merge]
      · simp [Entries.get?_put, differs]
      · exact nofun

theorem merge_table_nil :
    merge entries name (.table []) =
      entries.put name ((entries.get? name).getD (.table [])) := by
  rw [merge, mergeAll]

theorem merge_table_singleton (replaces : value.Replaces) :
    merge entries name (.table [(part, value)]) =
      entries.put name
        (.table (((entries.get? name).getD (.table [])).entries.put part value)) := by
  rw [merge, mergeAll, mergeAll, merge_of_replaces replaces]

theorem putAt_cons (value : Setting) (name : String) (step : Step) (rest : List Step)
    (whole : Setting) :
    putAt value (.name name :: step :: rest) whole =
      .table (whole.entries.put name
        (putAt value (step :: rest) ((whole.entries.get? name).getD .nothing))) := rfl

/-- Whatever is put at a name or further on from it, the other names keep their values. -/
theorem putAt_name (value : Setting) (name : String) (rest : List Step) (whole : Setting) :
    ∃ changed, putAt value (.name name :: rest) whole = .table changed ∧
      ∀ other, other ≠ name → Entries.get? changed other = Entries.get? whole.entries other := by
  cases rest with
  | nil => exact ⟨_, rfl, fun other differs => get?_merge_of_ne differs⟩
  | cons step rest =>
      refine ⟨_, rfl, fun other differs => ?_⟩
      rw [Entries.get?_put, if_neg differs]

theorem get?_layEntry_of_ne {entry : String × Setting} {other : String}
    (steps : stepsOf entry.1 = .name name :: rest) (differs : other ≠ name) :
    Entries.get? (layEntry entries entry) other = entries.get? other := by
  obtain ⟨changed, put, others⟩ := putAt_name entry.2 name rest (.table entries)
  rw [layEntry, steps, put]
  exact others other differs

theorem Holds.layEntry {entry : String × Setting} (holds : Holds entries title part value)
    (apart : Apart title part (stepsOf entry.1)) :
    Holds (layEntry entries entry) title part value := by
  obtain ⟨parts, titled, held⟩ := holds
  rw [Setting.layEntry]
  generalize stepsOf entry.1 = steps at apart
  cases apart with
  | @elsewhere name rest differs =>
      obtain ⟨changed, put, others⟩ := putAt_name entry.2 name rest (.table entries)
      rw [put]
      exact ⟨parts, (others title differs.symm).trans titled, held⟩
  | @beside name rest differs =>
      obtain ⟨changed, put, others⟩ := putAt_name entry.2 name rest (.table parts)
      refine ⟨changed, ?_, (others part differs.symm).trans held⟩
      simp only [putAt_cons, Setting.entries, titled, Option.getD_some, put, Entries.get?_put,
        ↓reduceIte]

theorem holds_layEntry_part {key : String} (steps : stepsOf key = [.name title, .name part])
    (replaces : value.Replaces) : Holds (layEntry entries (key, value)) title part value := by
  have put : layEntry entries (key, value) = entries.put title
      (.table (merge ((entries.get? title).getD .nothing).entries part value)) := by
    rw [layEntry, steps]
    rfl
  refine ⟨_, by rw [put, Entries.get?_put, if_pos rfl], ?_⟩
  rw [merge_of_replaces replaces, Entries.get?_put, if_pos rfl]

theorem holds_layEntry_section {key : String} (steps : stepsOf key = [.name title])
    (replaces : value.Replaces) :
    Holds (layEntry entries (key, .table [(part, value)])) title part value := by
  have put : layEntry entries (key, .table [(part, value)]) = entries.put title
      (.table (((entries.get? title).getD (.table [])).entries.put part value)) := by
    rw [layEntry, steps, ← merge_table_singleton replaces]
    rfl
  exact ⟨_, by rw [put, Entries.get?_put, if_pos rfl], by rw [Entries.get?_put, if_pos rfl]⟩

end Setting

namespace Settings

variable {disk : Disk} {environment : Environment} {path : Option String} {settings : Settings}

/-- The layers of the files that are looked for in any case. -/
def defaultLayers (disk : Disk) (environment : Environment) :
    Except Error (List (List (String × Setting))) := do
  let locals ← localFiles.mapM (optionalLayer disk)
  let user ← match (userFile? environment).filter disk.isThere with
    | some file => optionalLayer disk file
    | none => pure []
  return locals ++ [user]

def chosenLayer (disk : Disk) : (path : Option String) → Except Error (List (String × Setting))
  | some path => requiredLayer disk path
  | none => .ok []

def merged (layers : List (List (String × Setting))) : Entries Setting :=
  layers.foldl Setting.layOver []

theorem load_eq (disk : Disk) (environment : Environment) (path : Option String) :
    load disk environment path = (do
      let defaults ← defaultLayers disk environment
      let chosen ← chosenLayer disk path
      match ofSetting? (.table (merged (defaults ++ [chosen, variableLayer environment]))) with
      | some settings => return settings
      | none => .error .settings) := by
  have joined (locals user chosen) : locals ++ [user, chosen, variableLayer environment] =
      (locals ++ [user]) ++ [chosen, variableLayer environment] := by simp
  simp only [load, defaultLayers, joined, bind_assoc, pure_bind]
  refine congrArg (localFiles.mapM (optionalLayer disk) >>= ·) (funext fun locals => ?_)
  cases (userFile? environment).filter disk.isThere with
  | none =>
      cases path with
      | none => rfl
      | some path => rfl
  | some file =>
      simp only [bind_assoc, pure_bind]
      refine congrArg (optionalLayer disk file >>= ·) (funext fun user => ?_)
      cases path with
      | none => rfl
      | some path => rfl

theorem optionalLayer_of_absent {file : String}
    (absent : (candidates file).find? disk.isFile = none) : optionalLayer disk file = .ok [] := by
  rw [optionalLayer, source?, absent]
  rfl

/-- Where there are no files, the variables alone count. -/
theorem load_of_absent
    (absent : ∀ file ∈ localFiles, (candidates file).find? disk.isFile = none)
    (noUser : userFile? environment = none)
    (settled : ofSetting? (.table (Setting.layOver [] (variableLayer environment))) =
      some settings) :
    load disk environment none = .ok settings := by
  have defaults : defaultLayers disk environment = .ok [[], [], [], []] := by
    simp only [localFiles, List.forall_mem_cons] at absent
    obtain ⟨first, second, third, -⟩ := absent
    simp only [defaultLayers, localFiles, noUser, List.mapM_cons, List.mapM_nil,
      optionalLayer_of_absent first, optionalLayer_of_absent second,
      optionalLayer_of_absent third]
    rfl
  have onlyVariables : merged ([[], [], [], []] ++ [[], variableLayer environment]) =
      Setting.layOver [] (variableLayer environment) := rfl
  rw [load_eq, defaults]
  simp only [ok_bind, chosenLayer, onlyVariables, settled]
  rfl

theorem ofSetting?_eq_some_iff {whole : Setting} :
    ofSetting? whole = some settings ↔
      readSection whole 0 "output" .pretty readFormat = some settings.format ∧
      readSection whole 1 "models" none readDir = some settings.modelsDir ∧
      readSection whole 2 "export" true readExtensions = some settings.includeExtensions := by
  simp only [ofSetting?, bind, Option.bind_eq_some_iff, pure, Option.some.injEq]
  constructor
  · rintro ⟨format, isFormat, modelsDir, isDir, extensions, isExtensions, rfl⟩
    exact ⟨isFormat, isDir, isExtensions⟩
  · rintro ⟨isFormat, isDir, isExtensions⟩
    exact ⟨_, isFormat, _, isDir, _, isExtensions, rfl⟩

theorem readSection_of_titled {entries : Entries Setting} {name : String} {section? : Setting}
    (titled : entries.get? name = some section?) (place : Nat) (default : α)
    (read : Setting → Option α) :
    readSection (.table entries) place name default read = read section? := by
  rw [readSection, Setting.part?, titled]
  rfl

theorem readSection_dir {entries : Entries Setting} {value : Setting} {spelled : String}
    (holds : Setting.Holds entries "models" "dir" value) (told : value.toText? = some spelled) :
    readSection (.table entries) 1 "models" none readDir = some (some spelled) := by
  obtain ⟨parts, titled, held⟩ := holds
  have read : readDir (.table parts) = some (some spelled) := by
    rw [readDir, Setting.part?, held]
    cases value with
    | nothing => cases told
    | _ => exact congrArg (Option.map some) told
  rw [readSection_of_titled titled, read]

end Settings

end FieldRules
