import FieldRules.Proofs.Model.Loading
import FieldRules.Proofs.ModelRules.Schema

namespace FieldRules

/-! An attribute that was read compiles to a validator in canonical form. -/

namespace Json

theorem mem_addNew {values more : List Json} {value : Json}
    (member : value ∈ addNew values more) : value ∈ values ∨ value ∈ more := by
  induction more generalizing values with
  | nil => exact Or.inl member
  | cons first rest ih =>
      rcases ih member with inValues | inRest
      · dsimp only at inValues
        split at inValues
        · exact Or.inl inValues
        · rcases List.mem_append.mp inValues with before | added
          · exact Or.inl before
          · exact Or.inr (List.mem_singleton.mp added ▸ List.mem_cons_self)
      · exact Or.inr (List.mem_cons_of_mem _ inRest)

theorem sorted_of_depth_zero {value : Json} (flat : value.depth = 0) : value.sorted = value := by
  cases value with
  | array | object => exact absurd flat (Nat.succ_ne_zero _)
  | null | bool | number | string => rfl

end Json

open Json

namespace Validator

variable {room : Nat} {validator : Validator}

theorem CanonicalIn.mono {more : Nat} (enough : room ≤ more)
    (canonical : validator.CanonicalIn room) : validator.CanonicalIn more := by
  refine canonical.throughout.canonicalIn (Nat.le_trans canonical.fits.depth_le ?_)
  exact Nat.add_le_add_right enough 2

/-- A rule that has no validators inside, and at most a set of plain values. -/
theorem canonicalIn_leaf {rule : Rule Validator} {valid : Option (List Json)}
    (leaf : rule.inner = []) (flat : ∀ values ∈ valid, ∀ value ∈ values, value.depth = 0) :
    CanonicalIn 1 { rule, valid } := by
  have keyNames : rule.keyNames = [] := by
    cases rule with
    | object keys =>
        obtain rfl : keys = [] := List.map_eq_nil_iff.mp leaf
        rfl
    | _ => rfl
  have depth : membersDepth (ruleMembers rule) ≤ 1 := by
    cases rule with
    | object keys =>
        obtain rfl : keys = [] := List.map_eq_nil_iff.mp leaf
        exact Nat.le_refl 1
    | alternatives options =>
        obtain rfl : options = [] := leaf
        exact Nat.le_refl 1
    | number integer precision =>
        cases precision with
        | none => exact Nat.zero_le 1
        | some precision => exact Nat.zero_le 1
    | string max guid =>
        cases max with
        | none => exact Nat.zero_le 1
        | some max => exact Nat.zero_le 1
    | date iso format =>
        cases format with
        | none => exact Nat.zero_le 1
        | some format => exact Nat.zero_le 1
    | any | array | boolean => exact Nat.zero_le 1
  have sorted : ∀ values ∈ valid, ∀ value ∈ values, value.sorted = value :=
    fun values given value member => sorted_of_depth_zero (flat values given value member)
  have listed : ∀ values ∈ valid, itemsDepth values ≤ 1 := by
    intro values given
    refine itemsDepth_le_iff.mpr fun value member => ?_
    rw [flat values given value member]
    exact Nat.zero_le 1
  refine ⟨⟨?_, ⟨by simp, sorted, by simp⟩, by simp⟩,
    ⟨depth, Nat.zero_le 1, listed, by simp⟩, ?_⟩
  · rw [keyNames]
    exact List.nodup_nil
  · rw [inner, leaf]
    exact List.forall_mem_nil _

theorem canonicalIn_plain {rule : Rule Validator} (leaf : rule.inner = []) :
    CanonicalIn 1 { rule } :=
  canonicalIn_leaf leaf fun _ given => nomatch given

theorem CanonicalIn.allowing (canonical : validator.CanonicalIn room) {values : List Json}
    (flat : ∀ value ∈ values, value.depth = 0) : (validator.allowing values).CanonicalIn room := by
  have each : ∀ value ∈ addNew validator.allow values,
      value.sorted = value ∧ value.depth ≤ room := by
    intro value member
    rcases mem_addNew member with before | added
    · exact ⟨canonical.canonical.sorted.allow value before,
        itemsDepth_le_iff.mp canonical.fits.allow value before⟩
    · rw [flat value added]
      exact ⟨sorted_of_depth_zero (flat value added), Nat.zero_le room⟩
  obtain ⟨⟨keyNames, sorted, nonNull⟩, fits, parts⟩ := canonical
  exact ⟨⟨keyNames, ⟨fun value member => (each value member).1, sorted.valid, sorted.default⟩,
      nonNull⟩,
    ⟨fits.rule, itemsDepth_le_iff.mpr fun value member => (each value member).2, fits.valid,
      fits.default⟩, parts⟩

end Validator

namespace Attribute

open Validator

variable {attr : Attribute} {resolved : ResolvedType} {validator : Validator} {room : Nat}

theorem geometry_canonicalIn : geometry.CanonicalIn 4 := by
  have parts : ∀ part ∈ geometry.inner, part.CanonicalThroughout := by
    have inside : geometry.inner =
        [Validator.string.restrictedTo (geometryTypes.map .string), .array, .object] := rfl
    rw [inside]
    simp only [List.forall_mem_cons]
    exact ⟨(canonicalIn_leaf rfl (by decide)).throughout, (canonicalIn_plain rfl).throughout,
      (canonicalIn_plain rfl).throughout, nofun⟩
  have whole : geometry.CanonicalThroughout :=
    .intro ⟨by decide, ⟨nofun, nofun, nofun⟩, nofun⟩ parts
  exact whole.canonicalIn (by decide)

theorem sequenceOrObject_canonicalIn : sequenceOrObject.CanonicalIn 4 := by
  have parts : ∀ part ∈ sequenceOrObject.inner, part.CanonicalThroughout := by
    have inside : sequenceOrObject.inner = [Validator.array, .object] := rfl
    rw [inside]
    simp only [List.forall_mem_cons]
    exact ⟨(canonicalIn_plain rfl).throughout, (canonicalIn_plain rfl).throughout, nofun⟩
  have whole : sequenceOrObject.CanonicalThroughout :=
    .intro ⟨List.nodup_nil, ⟨nofun, nofun, nofun⟩, nofun⟩ parts
  exact whole.canonicalIn (by decide)

theorem base?_canonicalIn (given : attr.base? resolved = some validator) :
    validator.CanonicalIn 4 := by
  unfold base? at given
  cases type : resolved.type with
  | geometry =>
      rw [type] at given
      cases given
      exact geometry_canonicalIn
  | json | jsonb | other =>
      rw [type] at given
      cases given
      exact sequenceOrObject_canonicalIn
  | enumeration =>
      rw [type] at given
      obtain ⟨texts, _, rfl⟩ := Option.map_eq_some_iff.mp given
      refine (canonicalIn_leaf rfl ?_).mono (by decide)
      rintro values ⟨⟩ value member
      rcases mem_addNew member with none | listed
      · exact absurd none List.not_mem_nil
      · rcases List.mem_append.mp listed with isNull | isText
        · split at isNull
          · rw [List.mem_singleton.mp isNull]
            rfl
          · exact absurd isNull List.not_mem_nil
        · obtain ⟨text, _, rfl⟩ := List.mem_map.mp isText
          rfl
  | _ =>
      rw [type] at given
      cases given
      exact (canonicalIn_plain rfl).mono (by decide)

theorem standard?_canonicalIn (given : attr.standard? resolved = some validator) :
    validator.CanonicalIn 4 := by
  obtain ⟨base, isBase, rfl⟩ := Option.map_eq_some_iff.mp given
  have canonical := base?_canonicalIn isBase
  split
  · refine canonical.allowing ?_
    split
    · simp [depth]
    · simp [depth]
  · exact canonical

theorem annotate_canonicalIn (canonical : validator.CanonicalIn room)
    (default : ∀ default ∈ attr.defaultValue, default.sorted = default ∧ default.depth ≤ room + 1)
    (key : String) : (attr.annotate key validator).CanonicalIn room := by
  have chosen : ∀ value ∈ (attr.annotate key validator).default,
      value ∈ validator.default ∨ (value ∈ attr.defaultValue ∧ value.isTruthy = true) := by
    intro value member
    cases given : attr.defaultValue.filter Json.isTruthy with
    | none => exact Or.inl (by simpa [annotate, given] using member)
    | some own =>
        obtain rfl : own = value := by simpa [annotate, given] using member
        exact Or.inr (by simpa using given)
  have each : ∀ value ∈ (attr.annotate key validator).default,
      value.sorted = value ∧ value.depth ≤ room + 1 ∧ value ≠ .null := by
    intro value member
    rcases chosen value member with inherited | ⟨own, truthy⟩
    · refine ⟨canonical.canonical.sorted.default value inherited,
        canonical.fits.default value inherited, ?_⟩
      rintro rfl
      exact canonical.canonical.default inherited
    · refine ⟨(default value own).1, (default value own).2, ?_⟩
      rintro rfl
      cases truthy
  obtain ⟨⟨keyNames, sorted, _⟩, fits, parts⟩ := canonical
  exact ⟨⟨keyNames, ⟨sorted.allow, sorted.valid, fun value member => (each value member).1⟩,
      fun isNull => (each .null isNull).2.2 rfl⟩,
    ⟨fits.rule, fits.allow, fits.valid, fun value member => (each value member).2.1⟩, parts⟩

theorem compile_canonicalIn {modelName key : String} {type : TypeEntry}
    (compiled : attr.compile modelName key = .ok (validator, type))
    (enough : 4 ≤ room) (read : attr.ReadIn (room + 2)) : validator.CanonicalIn room := by
  obtain ⟨_, resolved, standard, _, _, given, rfl, _⟩ := compile_ok compiled
  have chosen : (attr.override.getD standard).CanonicalIn room := by
    cases overriding : attr.override with
    | none => exact (standard?_canonicalIn given).mono enough
    | some override =>
        obtain ⟨canonical, deep⟩ := read.override override overriding
        exact canonical.canonicalIn deep
  refine annotate_canonicalIn chosen (fun default member => ?_) key
  obtain ⟨sorted, deep⟩ := read.default default member
  exact ⟨sorted, Nat.le_of_lt_succ deep⟩

end Attribute

end FieldRules

namespace FieldRules.ModelRules

open Json Reading

/-! The rules of a model that was read are themselves read back, in every part and in order. -/

/-- The room for a validator, which lies two levels down in the document of the rules. -/
def validatorRoom : Nat := greatestDepth - 2

structure Canonical (rules : ModelRules) : Prop where
  validators_distinct : rules.validators.Distinct
  types_distinct : rules.types.Distinct
  validators : ∀ entry ∈ rules.validators,
    entry.2.CanonicalThroughout ∧ entry.2.toJson.depth ≤ validatorRoom

theorem FollowsLast.types_distinct {modelName : String} {attributes : List (String × Attribute)}
    {rules : ModelRules} (follows : FollowsLast modelName attributes rules) :
    rules.types.Distinct := by
  rw [Entries.Distinct, follows.type_names, ← Entries.names_ofList]
  exact Entries.distinct_ofList attributes

theorem canonical_of_compile {modelName : String} {attributes : Entries Attribute}
    {rules : ModelRules} (compiled : compile modelName attributes = .ok rules)
    (read : Model.AttributesRead attributes) : rules.Canonical := by
  have follows := followsLast_of_compile compiled
  refine ⟨follows.validators_distinct, follows.types_distinct, ?_⟩
  rintro ⟨key, validator⟩ member
  obtain ⟨attr, type, isLast, field⟩ := follows.exists_of_mem member
  have attrRead : attr.ReadIn (validatorRoom - 2 + 2) :=
    read.each (key, attr) (Entries.mem_of_last? isLast)
  have canonical := Attribute.compile_canonicalIn field (by decide) attrRead
  exact ⟨canonical.throughout, canonical.fits.depth_le⟩

theorem read_typeEntry {room : Nat} {checked : Bool} (entry : TypeEntry) :
    TypeEntry.layout.read ⟨room + 1, checked⟩ (Outline.ofJson entry.toJson) = .ok entry := rfl

theorem Canonical.read_toJson {rules : ModelRules} (canonical : rules.Canonical) :
    read .outermost (Outline.ofJson rules.toJson) = .ok rules := by
  obtain ⟨modelName, validators, types, nonNullable⟩ := rules
  let scope : Scope := ⟨validatorRoom + 1, false⟩
  have validatorsRead : (Outline.ofJson (.object
      (validators.mapValues Validator.toJson))).readEntries scope Validator.read =
        .ok (validators.mapValues id) :=
    Outline.readEntries_ofJson canonical.validators_distinct fun entry member =>
      (canonical.validators entry member).1.read_toJson (canonical.validators entry member).2
  have typesRead : (Outline.ofJson (.object
      (types.mapValues TypeEntry.toJson))).readEntries scope TypeEntry.layout.read =
        .ok (types.mapValues id) :=
    Outline.readEntries_ofJson canonical.types_distinct fun entry _ => read_typeEntry entry.2
  have keysRead : (Outline.ofJson (Json.strings nonNullable)).readStrings scope = .ok nonNullable :=
    Outline.readStrings_ofJson nonNullable
  rw [Entries.mapValues_id] at validatorsRead typesRead
  have nameTaken : layout.take scope layout.blank ("modelName", .string modelName) =
      .ok ⟨modelName, [], [], []⟩ := rfl
  have validatorsTaken : layout.take scope ⟨modelName, [], [], []⟩
      ("validators", .object (validators.mapValues Validator.toJson)) =
        .ok ⟨modelName, validators, [], []⟩ := by
    simp [Layout.take, Layout.find?, layout, validatorsRead]
  have typesTaken : layout.take scope ⟨modelName, validators, [], []⟩
      ("types", .object (types.mapValues TypeEntry.toJson)) =
        .ok ⟨modelName, validators, types, []⟩ := by
    simp [Layout.take, Layout.find?, layout, typesRead]
  have keysTaken : layout.take scope ⟨modelName, validators, types, []⟩
      ("nonNullableKeys", Json.strings nonNullable) =
        .ok ⟨modelName, validators, types, nonNullable⟩ := by
    simp [Layout.take, Layout.find?, layout, keysRead]
  have taken : layout.takeAll scope layout.blank [("modelName", .string modelName),
      ("validators", .object (validators.mapValues Validator.toJson)),
      ("types", .object (types.mapValues TypeEntry.toJson)),
      ("nonNullableKeys", Json.strings nonNullable)] =
        .ok ⟨modelName, validators, types, nonNullable⟩ := by
    rw [Layout.takeAll_cons nameTaken, Layout.takeAll_cons validatorsTaken,
      Layout.takeAll_cons typesTaken, Layout.takeAll_cons keysTaken]
    rfl
  exact Layout.readObject_ofJson rfl (by simp [Entries.Distinct])
    (by simp [layout]) taken

/-- What a document's model compiles to is read back from its own document, whose text may be
any that says the same. -/
theorem read_toJson_of_parse {text : String} {otherName : Option String} {model : Model}
    {rules : ModelRules} (parsed : Model.parse text otherName = .ok model)
    (compiled : model.compile = .ok rules) :
    read .outermost (Outline.ofJson rules.toJson) = .ok rules ∧
    ∀ written, Outline.ofText written = (Outline.ofJson rules.toJson, false) →
      parse written = .ok rules ∧ (parse written).map toJson = .ok rules.toJson := by
  have canonical := canonical_of_compile compiled (Model.attributesRead_of_parse parsed)
  refine ⟨canonical.read_toJson, fun written outlined => ?_⟩
  have back : parse written = .ok rules := by
    rw [parse, document, outlined]
    dsimp only
    rw [canonical.read_toJson]
    rfl
  exact ⟨back, by rw [back]; rfl⟩

/-- A note whose shape is given twice, the second time as an override with a null default. -/
def noteText : String :=
  "\x7b\"attributes\":\x7b\"shape\":\x7b\"type\":\"json\"\x7d,\"shape\":\x7b\"type\":\"json\","
    ++ "\"allowNull\":false,\"validator\":\x7b\"rule\":\x7b\"kind\":\"object\"\x7d,"
    ++ "\"default\":null\x7d\x7d\x7d\x7d"

def note : Model where
  name := "Note"
  attributes := [
    ("shape", { type := some (.named "json"), allowNull := some false,
                override := some .object })]

def noteRules : ModelRules where
  modelName := "Note"
  validators := [("shape", .labelled .object "shape")]
  types := [("shape", .ofName "json")]
  nonNullable := ["shape"]

/-- The null default is not in the model, so nothing of it can be lost. -/
theorem read_toJson_of_parse_note :
    Model.parse noteText (some "Note") = .ok note ∧ note.compile = .ok noteRules ∧
      parse noteRules.toJson.compact = .ok noteRules := by
  have parsed : Model.parse noteText (some "Note") = .ok note := by cbv
  have compiled : note.compile = .ok noteRules := rfl
  have written : noteRules.toJson.compact =
      "\x7b\"modelName\":\"Note\",\"validators\":\x7b\"shape\":\x7b\"rule\":"
        ++ "\x7b\"kind\":\"object\",\"keys\":\x7b\x7d\x7d,\"label\":\"shape\"\x7d\x7d,"
        ++ "\"types\":\x7b\"shape\":\x7b\"original\":\"json\",\"query\":\"json\"\x7d\x7d,"
        ++ "\"nonNullableKeys\":[\"shape\"]\x7d" := by decide +kernel
  refine ⟨parsed, compiled, ((read_toJson_of_parse parsed compiled).2 _ ?_).1⟩
  rw [written]
  cbv

end FieldRules.ModelRules
