import FieldRules.Proofs.Model.Loading
import FieldRules.Proofs.ModelRules.Schema
import FieldRules.Proofs.Settings.Layers

namespace FieldRules.CommandLine

open Draft7 Files

/-! Checking records tells for each one whether it fits the model, and fails if one does not. -/

variable {schema : Schema} {records : List Json} {rules : ModelRules} {extensions : Bool}

/-- The records of a document: the items of a list, or else its only value. -/
inductive ListsRecords : Json → List Json → Prop
  | items (records : List Json) : ListsRecords (.array records) records
  | value {record : Json} (single : ∀ items, record ≠ .array items) :
      ListsRecords record [record]

theorem ListsRecords.recordsOf_eq {value : Json} (listed : ListsRecords value records) :
    recordsOf value = records := by
  cases listed with
  | items => rfl
  | value single =>
      cases value with
      | array items => exact absurd rfl (single items)
      | _ => rfl

/-- What is printed on a record: a line that calls it valid, or one that does not with a line for
each of its issues. -/
inductive Told (rules : ModelRules) (extensions : Bool) :
    (numbered : Json × Nat) → String → Prop
  | valid {record : Json} {index : Nat} (fits : rules.Fits .draft7 extensions record) :
      Told rules extensions (record, index) ("  ✅ #" ++ toString index ++ " - valid\n")
  | invalid {record : Json} {index : Nat} (misfit : ¬ rules.Fits .draft7 extensions record) :
      Told rules extensions (record, index)
        ("  ❌ #" ++ toString index ++ " - INVALID\n" ++
          String.join (((rules.schema true).root.issues record []).map fun issue =>
            "     └─ " ++ issue.cause.message ++ " at '" ++ issue.pointer ++ "'\n"))

theorem told_describe {record : Json}
    (fits : (rules.schema true).root.accepts record = true ↔ rules.Fits .draft7 extensions record)
    (index : Nat) :
    Told rules extensions (record, index)
      (Finding.describe ⟨index, (rules.schema true).root.issues record []⟩) := by
  have isValid : Finding.isValid ⟨index, (rules.schema true).root.issues record []⟩ =
      (rules.schema true).root.accepts record := rfl
  rw [Finding.describe, isValid]
  cases accepted : (rules.schema true).root.accepts record with
  | true => exact .valid (fits.mp accepted)
  | false => exact .invalid fun fitting => by simp [accepted] at fits; exact fits fitting

theorem told_findings
    (fits : ∀ record, (rules.schema true).root.accepts record = true ↔
      rules.Fits .draft7 extensions record) (records : List Json) :
    List.Forall₂ (Told rules extensions) records.zipIdx
      ((findings (rules.schema true).root records).map Finding.describe) := by
  rw [findings, List.map_map, List.forall₂_map_right_iff, List.forall₂_same]
  rintro ⟨record, index⟩ -
  exact told_describe (fits record) index

theorem report_eq (modelName : String) (found : List Finding) : report modelName found =
    "🔍 Checking " ++ toString found.length ++ " record(s) against " ++ modelName ++ "\n" ++
      String.join (found.map Finding.describe) := rfl

@[simp] theorem length_findings : (findings schema records).length = records.length := by
  simp [findings]

theorem checkFailure_eq_none_iff {found : List Finding} :
    checkFailure found = none ↔ ∀ finding ∈ found, finding.isValid = true := by
  simp [checkFailure]

theorem checkFailure_findings_iff :
    checkFailure (findings schema records) = none ↔
      ∀ record ∈ records, schema.accepts record = true := by
  rw [checkFailure_eq_none_iff]
  constructor
  · intro valid record member
    obtain ⟨index, found⟩ := List.mem_iff_getElem?.mp member
    have listed : (record, index) ∈ records.zipIdx := List.mem_zipIdx_iff_getElem?.mpr found
    exact valid _ (List.mem_map_of_mem listed)
  · intro accepted finding member
    obtain ⟨⟨record, index⟩, listed, rfl⟩ := List.mem_map.mp member
    exact accepted record (List.fst_mem_of_mem_zipIdx listed)

variable {disk : Disk} {environment : Environment} {words : List String} {arguments : Arguments}
  {settings : Settings} {file record : String}

theorem checkRecords_ok {text : String} {value : Json}
    (compiled : compileModel disk file = .ok rules)
    (checkable : schemaFailure? rules.modelName (rules.schema true) = none)
    (readable : disk.readText record = .ok text) (parsed : Json.parse text = .ok value) :
    checkRecords disk file record =
      .ok (rules.modelName, findings (rules.schema true).root (recordsOf value)) := by
  simp [checkRecords, compiled, checkable, readable, parsed]

theorem checkRecords_error {failure : Failure} (compiled : compileModel disk file = .ok rules)
    (refused : schemaFailure? rules.modelName (rules.schema true) = some failure) :
    checkRecords disk file record = .error failure := by
  simp [checkRecords, compiled, refused]

theorem run_check (asked : Invocation.ofArguments words = .run arguments)
    (check : arguments.command = .check file record)
    (configured : effectiveSettings disk environment arguments = .ok settings) :
    run disk environment words =
      match checkRecords disk file record with
      | .ok (modelName, found) =>
          match checkFailure found with
          | none => ⟨0, report modelName found, "", disk⟩
          | some failure =>
              ⟨1, report modelName found, "Error: " ++ failure.message ++ "\n", disk⟩
      | .error failure => ⟨1, "", "Error: " ++ failure.message ++ "\n", disk⟩ := by
  rw [run, asked]
  simp only [runCommand, configured, check, perform]
  cases checkRecords disk file record with
  | error failure => rfl
  | ok checked => rfl

section

variable (asked : Invocation.ofArguments words = .run arguments)
  (check : arguments.command = .check file record)
  (configured : effectiveSettings disk environment arguments = .ok settings)

include asked check configured

theorem run_checked {modelName : String} {found : List Finding}
    (checked : checkRecords disk file record = .ok (modelName, found)) :
    (run disk environment words).output = report modelName found ∧
    ((run disk environment words).status = 0 ↔ checkFailure found = none) ∧
    ((run disk environment words).status = 1 ↔ checkFailure found ≠ none) := by
  rw [run_check asked check configured, checked]
  cases failed : checkFailure found with
  | none => simp [failed]
  | some failure => simp [failed]

theorem run_refused {failure : Failure} (refused : checkRecords disk file record = .error failure) :
    (run disk environment words).status = 1 ∧ (run disk environment words).output = "" := by
  rw [run_check asked check configured, refused]
  exact ⟨rfl, rfl⟩

end

/-- The rules of a model file come from attributes as they are read. -/
theorem followsLast_of_compileModel (compiled : compileModel disk file = .ok rules) :
    ∃ modelName, ∃ keyed : ModelRules.KeyedAttributes,
      ModelRules.FollowsLast modelName keyed.attributes rules := by
  obtain ⟨model, loaded, compiled⟩ := bind_eq_ok_iff.mp (mapError_eq_ok_iff.mp compiled)
  have read := Model.attributesRead_of_load loaded
  have distinct : ∀ entry ∈ model.attributes, ∀ override ∈ entry.2.override,
      override.KeysDistinct := fun entry member override overrides =>
    ((read.each entry member).override override overrides).1.keysDistinct
  exact ⟨model.name, ⟨model.attributes, distinct⟩, ModelRules.followsLast_of_compile compiled⟩

/-- With settings that load, a model whose schema is in shape and records that can be read, each
record is told to be valid if and only if it fits the model, and the command succeeds if and only
if every record does. The engine alone may still refuse the schema, before it looks at a record:
it follows identifiers even within defaults, where they mean nothing in draft 7. -/
theorem check_valid_iff_fits {text : String} {value : Json}
    (asked : Invocation.ofArguments words = .run arguments)
    (check : arguments.command = .check file record)
    (configured : effectiveSettings disk environment arguments = .ok settings)
    (compiled : compileModel disk file = .ok rules)
    (shaped : WellShaped (rules.schema true).toJson)
    (readable : disk.readText record = .ok text) (parsed : Json.parse text = .ok value)
    (listed : ListsRecords value records) (extensions : Bool) :
    (identifierFault? documentBase (rules.schema true).toJson = none →
      (∃ texts, List.Forall₂ (Told rules extensions) records.zipIdx texts ∧
        (run disk environment words).output =
          "🔍 Checking " ++ toString records.length ++ " record(s) against " ++
            rules.modelName ++ "\n" ++ String.join texts) ∧
      ((run disk environment words).status = 0 ↔
        ∀ item ∈ records, rules.Fits .draft7 extensions item) ∧
      ((run disk environment words).status = 1 ↔
        ∃ item ∈ records, ¬ rules.Fits .draft7 extensions item)) ∧
    ∀ fault, identifierFault? documentBase (rules.schema true).toJson = some fault →
      (run disk environment words).status = 1 ∧ (run disk environment words).output = "" := by
  obtain ⟨modelName, keyed, follows⟩ := followsLast_of_compileModel compiled
  have fits := follows.accepts_iff_fits true extensions
  have inhabited : (rules.schema true).root.choicesInhabited = true := by
    have offers := (follows.shaped_root_iff (fun regular => regular.wellShaped_iff) true).mp
      ((ModelRules.wellShaped_document_iff _).mp shaped)
    exact (follows.shaped_root_iff (fun _ => Schema.choicesInhabited_iff) true).mpr offers
  refine ⟨fun identified => ?_, fun fault faulty => ?_⟩
  · have checkable : schemaFailure? rules.modelName (rules.schema true) = none := by
      rw [schemaFailure?, identified]
      exact if_pos inhabited
    have checked := checkRecords_ok compiled checkable readable parsed
    rw [listed.recordsOf_eq] at checked
    obtain ⟨output, succeeds, fails⟩ := run_checked asked check configured checked
    have unfailing : checkFailure (findings (rules.schema true).root records) = none ↔
        ∀ item ∈ records, rules.Fits .draft7 extensions item := by
      rw [checkFailure_findings_iff]
      exact forall₂_congr fun item _ => fits item
    refine ⟨⟨_, told_findings fits records, ?_⟩, succeeds.trans unfailing, ?_⟩
    · rw [output, report_eq, length_findings]
    · rw [fails, ne_eq, unfailing]
      simp only [not_forall, exists_prop]
  · have refused : schemaFailure? rules.modelName (rules.schema true) =
        some (.badIdentifier rules.modelName fault) := by
      rw [schemaFailure?, faulty]
    exact run_refused asked check configured (checkRecords_error compiled refused)

/-- A flag that may be null, in a model that is named after its file. -/
def flag : Model := ⟨"Flag", [("on", { type := some (.named "boolean") })]⟩

def flagRules : ModelRules where
  modelName := "Flag"
  validators := [("on", Validator.boolean.allowing [.null] |>.labelled "on")]
  types := [("on", .ofName "boolean")]
  nonNullable := []

def flagText : String := "\x7b\"attributes\":\x7b\"on\":\x7b\"type\":\"boolean\"\x7d\x7d\x7d"

def recordsText : String := "[\x7b\"on\":null\x7d,\x7b\"on\":\"yes\"\x7d]"

def flagDisk : Disk where
  root := .directory [
    ("Flag.json", .file flagText.toUTF8),
    ("records", .file recordsText.toUTF8)]
  workingDirectory := []

def flagArguments : Arguments := ⟨none, false, .check "Flag.json" "records"⟩

theorem effectiveSettings_flag : effectiveSettings flagDisk [] flagArguments = .ok {} := by
  have loaded : Settings.load flagDisk [] none = .ok {} :=
    Settings.load_of_absent (by decide +kernel) rfl rfl
  rw [effectiveSettings, show flagArguments.settingsFile = none from rfl, loaded]
  rfl

theorem compileModel_flag : compileModel flagDisk "Flag.json" = .ok flagRules := by
  have found : flagDisk.tree "Flag.json" = .ok (.file flagText.toUTF8) :=
    Disk.tree_name (by decide) _
  have stem : Path.stem? "Flag.json" = some "Flag" := by decide
  have loaded : Model.load flagDisk "Flag.json" = .ok flag := by
    refine Model.load_of_readText (Disk.readText_of_tree found).2 ?_
    rw [stem]
    cbv
  rw [compileModel, loaded]
  rfl

theorem flagRules_wellShaped : WellShaped (flagRules.schema true).toJson := by
  have compiled : ModelRules.compile flag.name flag.attributes = .ok flagRules := rfl
  have distinct : ∀ entry ∈ flag.attributes, ∀ override ∈ entry.2.override,
      override.KeysDistinct := by simp [flag]
  have follows : ModelRules.FollowsLast flag.name
      (ModelRules.KeyedAttributes.mk flag.attributes distinct).attributes flagRules :=
    ModelRules.followsLast_of_compile compiled
  rw [ModelRules.wellShaped_document_iff,
    follows.shaped_root_iff (fun regular => regular.wellShaped_iff) true]
  intro key attr isLast
  have member : (key, attr) ∈ flag.attributes := Entries.mem_of_last? isLast
  obtain ⟨_, rfl⟩ : key = "on" ∧ attr = { type := some (.named "boolean") } := by
    simpa [flag] using member
  exact nofun

theorem fits_flag_iff (value : Json) : flagRules.Fits .draft7 true (.object [("on", value)]) ↔
    ((Validator.boolean.allowing [.null]).labelled "on").admits .draft7 value = true := by
  have keysDistinct : ((Validator.boolean.allowing [.null]).labelled "on").KeysDistinct :=
    Validator.keysDistinct_leaf rfl rfl
  rw [← Validator.Keyed.satisfies_schema .draft7 ⟨_, keysDistinct⟩]
  constructor
  · rintro ⟨members, equal, each⟩
    cases equal
    obtain ⟨validator, found, satisfied⟩ := each _ List.mem_cons_self
    cases found
    exact satisfied
  · intro satisfied
    refine ⟨_, rfl, ?_⟩
    rw [List.forall_mem_singleton]
    exact ⟨_, rfl, satisfied⟩

/-- The first of two records leaves the flag open, the second one gives a text. -/
theorem check_valid_iff_fits_flag :
    Invocation.ofArguments ["check", "Flag.json", "records"] = .run flagArguments ∧
    (run flagDisk [] ["check", "Flag.json", "records"]).status = 1 ∧
    (run flagDisk [] ["check", "Flag.json", "records"]).output =
      "🔍 Checking 2 record(s) against Flag\n" ++
      "  ✅ #0 - valid\n" ++
      "  ❌ #1 - INVALID\n" ++
      "     └─ \"yes\" is not valid under any of the schemas listed in the 'anyOf' keyword" ++
        " at '/on'\n" := by
  have asked : Invocation.ofArguments ["check", "Flag.json", "records"] = .run flagArguments := by
    decide
  have found : flagDisk.tree "records" = .ok (.file recordsText.toUTF8) :=
    Disk.tree_name (by decide) _
  have parsed : Json.parse recordsText =
      .ok (.array [.object [("on", .null)], .object [("on", .string "yes")]]) := by cbv
  have first : flagRules.Fits .draft7 true (.object [("on", .null)]) :=
    (fits_flag_iff .null).mpr rfl
  have second : ¬ flagRules.Fits .draft7 true (.object [("on", .string "yes")]) := by
    rw [fits_flag_iff]
    decide
  have readable : flagDisk.readText "records" = .ok recordsText := (Disk.readText_of_tree found).2
  obtain ⟨⟨texts, told, output⟩, -, fails⟩ := (check_valid_iff_fits asked rfl
    effectiveSettings_flag compileModel_flag flagRules_wellShaped readable parsed
    (.items _) true).1 (by decide)
  refine ⟨asked, fails.mpr ⟨_, by simp, second⟩, ?_⟩
  cases told with
  | cons tellsFirst more =>
    cases more with
    | cons tellsSecond none =>
      cases none
      cases tellsFirst with
      | invalid misfit => exact absurd first misfit
      | valid =>
        cases tellsSecond with
        | valid fits => exact absurd fits second
        | invalid => exact output.trans (by decide +kernel)

end FieldRules.CommandLine
