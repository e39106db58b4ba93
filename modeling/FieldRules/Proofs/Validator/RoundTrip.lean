import FieldRules.Proofs.Reading.Layout
import FieldRules.Proofs.Validator.Inner

namespace FieldRules.Validator

open Json

/-! The members of a validator's document: no name comes twice, and the validators within
lie deeper. -/

theorem names_ruleMembers (rule : Rule Validator) :
    (Entries.names (ruleMembers rule)).Sublist
      ["integer", "precision", "max", "guid", "iso", "format", "keys", "alternatives"] := by
  cases rule with
  | number integer precision =>
      cases precision with
      | none => simp [ruleMembers]
      | some precision => simp [ruleMembers]
  | string max guid =>
      cases max with
      | none => simp [ruleMembers]
      | some max => simp [ruleMembers]
  | date iso format =>
      cases format with
      | none => simp [ruleMembers]
      | some format =>
          simp only [ruleMembers, Json.optional_some, Entries.names_cons, Entries.names_nil]
          decide
  | _ => simp [ruleMembers]

theorem distinct_ruleMembers (rule : Rule Validator) : Entries.Distinct (ruleMembers rule) :=
  (names_ruleMembers rule).nodup (by decide)

theorem ruleMembers_ne_kind (rule : Rule Validator) :
    ∀ member ∈ ruleMembers rule, member.1 ≠ "kind" := by
  intro member inMembers equal
  have listed := (names_ruleMembers rule).subset (List.mem_map_of_mem inMembers)
  rw [equal] at listed
  revert listed
  decide

def ruleToJson (rule : Rule Validator) : Json :=
  .object (("kind", .string rule.kindName) :: ruleMembers rule)

def members (validator : Validator) : List (String × Json) :=
  [("rule", ruleToJson validator.rule)]
    ++ Json.nonempty "allow" .array validator.allow
    ++ Json.optional "valid" .array validator.valid
    ++ Json.optional "description" .string validator.description
    ++ Json.nonempty "notes" Json.strings validator.notes
    ++ Json.optional "default" id validator.default
    ++ Json.optional "label" .string validator.label

theorem toJson_eq (validator : Validator) : validator.toJson = .object validator.members := by
  cases validator
  rfl

theorem toJson_ne_null (validator : Validator) : validator.toJson ≠ .null := by
  rw [toJson_eq]
  nofun

theorem distinct_members (validator : Validator) : Entries.Distinct validator.members := by
  have names : (Entries.names validator.members).Sublist
      ["rule", "allow", "valid", "description", "notes", "default", "label"] := by
    rw [members, Entries.names]
    simp only [List.map_append]
    have optional : ∀ {α : Type} (name : String) (encode : α → Json) (option : Option α),
        ((Json.optional name encode option).map Prod.fst).Sublist [name] := by
      intro α name encode option
      cases option with
      | none => simp
      | some value => simp
    have nonempty : ∀ {α : Type} (name : String) (encode : List α → Json) (parts : List α),
        ((Json.nonempty name encode parts).map Prod.fst).Sublist [name] := by
      intro α name encode parts
      cases parts with
      | nil => simp
      | cons first others => simp
    exact ((((((List.Sublist.refl ["rule"]).append (nonempty ..)).append (optional ..)).append
      (optional ..)).append (nonempty ..)).append (optional ..)).append (optional ..)
  exact names.nodup (by decide)

/-- Inside the object of its rule, a document of a validator has room for what the rule
holds, and so for the values that the validator names. -/
structure Fits (room : Nat) (validator : Validator) : Prop where
  rule : membersDepth (ruleMembers validator.rule) ≤ room
  allow : itemsDepth validator.allow ≤ room
  valid : ∀ values ∈ validator.valid, itemsDepth values ≤ room
  default : ∀ value ∈ validator.default, value.depth ≤ room + 1

theorem exists_fits {validator : Validator} {room : Nat} (deep : validator.toJson.depth ≤ room) :
    ∃ inside, room = inside + 2 ∧ validator.Fits inside := by
  rw [toJson_eq, depth] at deep
  have each : ∀ member ∈ validator.members, member.2.depth + 1 ≤ room := by
    intro member inMembers
    have deepest := membersDepth_le_iff.mp (Nat.le_refl (membersDepth validator.members))
      member inMembers
    omega
  have rule := each ("rule", ruleToJson validator.rule) (by simp [members])
  simp only [ruleToJson, depth, membersDepth, Nat.zero_max] at rule
  obtain ⟨inside, rfl⟩ : ∃ inside, room = inside + 2 := ⟨room - 2, by omega⟩
  refine ⟨inside, rfl, by omega, ?_, ?_, ?_⟩
  · cases allow : validator.allow with
    | nil => exact Nat.zero_le inside
    | cons first others =>
        have deepest := each ("allow", .array (first :: others))
          (by simp [members, allow, Json.nonempty])
        simp only [depth] at deepest
        omega
  · intro values given
    have deepest := each ("valid", .array values)
      (by simp [members, Option.mem_def.mp given, Json.optional])
    simp only [depth] at deepest
    omega
  · intro value given
    have deepest := each ("default", value)
      (by simp [members, Option.mem_def.mp given, Json.optional])
    exact Nat.le_of_succ_le_succ deepest

/-- A validator within a rule lies three levels down: in an object, in its rule, and among
the rule's parts. -/
theorem depth_add_le_of_mem_inner {validator part : Validator} (member : part ∈ validator.inner) :
    part.toJson.depth + 3 ≤ validator.toJson.depth := by
  obtain ⟨inside, whole, fits⟩ := exists_fits (Nat.le_refl validator.toJson.depth)
  have ruleDepth := fits.rule
  have partDepth : part.toJson.depth + 1 ≤ membersDepth (ruleMembers validator.rule) := by
    cases rule : validator.rule with
    | object keys =>
        obtain ⟨key, inKeys, rfl⟩ : ∃ key ∈ keys, key.2 = part := by
          simpa [inner, rule, Rule.inner] using member
        have deepest := membersDepth_le_iff.mp (Nat.le_refl (membersDepth (keysToJson keys)))
          (key.1, key.2.toJson)
          (by rw [keysToJson_eq]; exact List.mem_map_of_mem inKeys)
        simpa [ruleMembers, membersDepth, depth] using deepest
    | alternatives options =>
        have inOptions : part ∈ options := by
          simpa [inner, rule, Rule.inner] using member
        have deepest := itemsDepth_le_iff.mp (Nat.le_refl (itemsDepth (optionsToJson options)))
          part.toJson (by rw [optionsToJson_eq]; exact List.mem_map_of_mem inOptions)
        simpa [ruleMembers, membersDepth, depth] using deepest
    | any | array | boolean | number | string | date =>
        simp [inner, rule, Rule.inner] at member
  omega

end FieldRules.Validator

namespace FieldRules

open Json Reading

/-! A validator is read back from its document, except for defaults that are null: an absent
member is written for no default, and a null one is read as absent. -/

namespace Rule

variable {inner : Outline → Except ReadError Validator}

theorem findKind_ofJson {scope : Scope} {found : Option RuleKind}
    {members : List (String × Json)} (others : ∀ member ∈ members, member.1 ≠ "kind")
    (deep : membersDepth members ≤ scope.room) :
    findKind scope found (Outline.membersOfJson members) = .ok found := by
  induction members with
  | nil => rfl
  | cons member rest ih =>
      obtain ⟨name, value⟩ := member
      obtain ⟨first, deepRest⟩ := Nat.max_le.mp deep
      have differ : name ≠ "kind" := others (name, value) List.mem_cons_self
      rw [Outline.membersOfJson]
      unfold findKind
      rw [if_neg differ, Outline.check_ofJson first]
      exact ih (fun member inRest => others member (List.mem_cons_of_mem _ inRest)) deepRest

theorem readKind_kindName (scope : Scope) (rule : Rule V) :
    readKind scope (.string rule.kindName) = .ok rule.kind := by
  cases rule with
  | any | array | boolean | number | string | date | object | alternatives => rfl

theorem filter_isKind (members : List (String × Json)) :
    (Outline.membersOfJson members).filter (fun member => !isKind member) =
      Outline.membersOfJson (members.filter fun member => member.1 != "kind") := by
  simp only [Outline.membersOfJson_eq, List.filter_map]
  rfl

theorem filter_isKind_ofJson {members : List (String × Json)}
    (others : ∀ member ∈ members, member.1 ≠ "kind") :
    (Outline.membersOfJson members).filter (fun member => !isKind member) =
      Outline.membersOfJson members := by
  rw [filter_isKind, List.filter_eq_self.mpr]
  intro member inMembers
  simpa using others member inMembers

end Rule

namespace Validator

section

variable {inner : Outline → Except ReadError Validator} {room : Nat} {checked : Bool}

theorem numberLayout_takeAll (integer : Bool) (precision : Option UInt32) :
    Rule.numberLayout.takeAll ⟨room, checked⟩ (false, none)
      (ruleMembers (.number integer precision)) = .ok (integer, precision) := by
  have first : Rule.numberLayout.take ⟨room, checked⟩ (false, none) ("integer", .bool integer) =
      .ok (integer, none) := rfl
  rw [ruleMembers, Layout.takeAll_cons first]
  refine Layout.takeAll_optional (fun digits => (integer, digits)) fun digits _ => ?_
  have part : (Outline.ofJson (Json.ofUInt32 digits)).readOption Outline.readUInt32 =
      .ok (some digits) :=
    Outline.readOption_ofJson (by simp [Json.ofUInt32]) (Outline.readUInt32_ofJson digits)
  simp [Layout.take, Layout.find?, Rule.numberLayout, part]

theorem stringLayout_takeAll (max : Option UInt64) (guid : Bool) :
    Rule.stringLayout.takeAll ⟨room, checked⟩ (none, false) (ruleMembers (.string max guid)) =
      .ok (max, guid) := by
  have first : Rule.stringLayout.takeAll ⟨room, checked⟩ (none, false)
      (Json.optional "max" Json.ofUInt64 max) = .ok (max, false) := by
    refine Layout.takeAll_optional (fun length => (length, false)) fun length _ => ?_
    have part : (Outline.ofJson (Json.ofUInt64 length)).readOption Outline.readUInt64 =
        .ok (some length) :=
      Outline.readOption_ofJson (by simp [Json.ofUInt64]) (Outline.readUInt64_ofJson length)
    simp [Layout.take, Layout.find?, Rule.stringLayout, part]
  rw [ruleMembers, Layout.takeAll_append first]
  rfl

theorem dateLayout_takeAll (iso : Bool) (format : Option String) :
    Rule.dateLayout.takeAll ⟨room, checked⟩ (false, none) (ruleMembers (.date iso format)) =
      .ok (iso, format) := by
  have first : Rule.dateLayout.take ⟨room, checked⟩ (false, none) ("iso", .bool iso) =
      .ok (iso, none) := rfl
  rw [ruleMembers, Layout.takeAll_cons first]
  exact Layout.takeAll_optional (fun text => (iso, text)) fun text _ => rfl

theorem objectLayout_takeAll {keys : Entries Validator} (distinct : keys.Distinct)
    (parts : ∀ key ∈ keys, inner (Outline.ofJson key.2.toJson) = .ok key.2.readBack) :
    (Rule.objectLayout inner).takeAll ⟨room + 1, checked⟩ [] (ruleMembers (.object keys)) =
      .ok (keys.mapValues readBack) := by
  have read : (Outline.ofJson (.object (keys.mapValues toJson))).readEntries
      ⟨room + 1, checked⟩ (fun _ => inner) = .ok (keys.mapValues readBack) :=
    Outline.readEntries_ofJson distinct parts
  rw [ruleMembers, keysToJson_eq]
  simp [Layout.takeAll, Layout.take, Layout.find?, Rule.objectLayout, read]

theorem alternativesLayout_takeAll {options : List Validator}
    (parts : ∀ option ∈ options, inner (Outline.ofJson option.toJson) = .ok option.readBack) :
    (Rule.alternativesLayout inner).takeAll ⟨room + 1, checked⟩ []
      (ruleMembers (.alternatives options)) = .ok (options.map readBack) := by
  have read : (Outline.ofJson (.array (options.map toJson))).readList
      ⟨room + 1, checked⟩ (fun _ => inner) = .ok (options.map readBack) :=
    Outline.readList_ofJson parts
  rw [ruleMembers, optionsToJson_eq]
  simp [Layout.takeAll, Layout.take, Layout.find?, Rule.alternativesLayout, read]

theorem readParts_ofJson {rule : Rule Validator} (distinct : rule.keyNames.Nodup)
    (deep : membersDepth (ruleMembers rule) ≤ room)
    (parts : ∀ part ∈ rule.inner, inner (Outline.ofJson part.toJson) = .ok part.readBack) :
    (Rule.readParts inner rule.kind fun layout =>
      layout.readObject ⟨room, checked⟩ (Outline.membersOfJson (ruleMembers rule))) =
      .ok (ruleReadBack rule) := by
  have different := distinct_ruleMembers rule
  cases rule with
  | any | array | boolean => rfl
  | number integer precision =>
      have read := Layout.readObject_ofJson rfl different (by simp [Rule.numberLayout])
        (@numberLayout_takeAll room checked integer precision)
      simp only [Rule.readParts, Rule.kind, read]
      rfl
  | string max guid =>
      have read := Layout.readObject_ofJson rfl different (by simp [Rule.stringLayout])
        (@stringLayout_takeAll room checked max guid)
      simp only [Rule.readParts, Rule.kind, read]
      rfl
  | date iso format =>
      have read := Layout.readObject_ofJson rfl different (by simp [Rule.dateLayout])
        (@dateLayout_takeAll room checked iso format)
      simp only [Rule.readParts, Rule.kind, read]
      rfl
  | object keys =>
      obtain ⟨inside, rfl⟩ : ∃ inside, room = inside + 1 := by
        simp only [ruleMembers, membersDepth, depth] at deep
        exact ⟨room - 1, by omega⟩
      have read := Layout.readObject_ofJson rfl different (by simp [Rule.objectLayout])
        (@objectLayout_takeAll inner inside checked keys distinct fun key member =>
          parts key.2 (List.mem_map_of_mem member))
      simp only [Rule.readParts, Rule.kind, read]
      rw [ruleReadBack, keysReadBack_eq]
      rfl
  | alternatives options =>
      obtain ⟨inside, rfl⟩ : ∃ inside, room = inside + 1 := by
        simp only [ruleMembers, membersDepth, depth] at deep
        exact ⟨room - 1, by omega⟩
      have read := Layout.readObject_ofJson rfl different
        (by simp [Rule.alternativesLayout, ruleMembers, Entries.names])
        (@alternativesLayout_takeAll inner inside checked options parts)
      simp only [Rule.readParts, Rule.kind, read]
      rw [ruleReadBack, optionsReadBack_eq]
      rfl

theorem readRule_ofJson {rule : Rule Validator} (distinct : rule.keyNames.Nodup)
    (deep : membersDepth (ruleMembers rule) ≤ room)
    (parts : ∀ part ∈ rule.inner, inner (Outline.ofJson part.toJson) = .ok part.readBack) :
    Rule.read inner ⟨room + 1, checked⟩ (Outline.ofJson (ruleToJson rule)) =
      .ok (ruleReadBack rule) := by
  have others := ruleMembers_ne_kind rule
  have kind : Rule.findKind ⟨room, checked⟩ none
      (Outline.membersOfJson (("kind", .string rule.kindName) :: ruleMembers rule)) =
        .ok (some rule.kind) := by
    rw [Outline.membersOfJson]
    unfold Rule.findKind
    rw [if_pos rfl, Outline.ofJson, Rule.readKind_kindName]
    exact Rule.findKind_ofJson others deep
  have rest : (Outline.membersOfJson
      (("kind", .string rule.kindName) :: ruleMembers rule)).filter
        (fun member => !Rule.isKind member) = Outline.membersOfJson (ruleMembers rule) := by
    rw [Outline.membersOfJson, List.filter_cons_of_neg (by simp [Rule.isKind])]
    exact Rule.filter_isKind_ofJson others
  simp only [ok_bind, ruleToJson, Outline.ofJson, Rule.read, Outline.enter, kind, rest]
  exact readParts_ofJson distinct deep parts

end

structure Sorted (validator : Validator) : Prop where
  allow : ∀ value ∈ validator.allow, value.sorted = value
  valid : ∀ values ∈ validator.valid, ∀ value ∈ values, value.sorted = value
  default : ∀ value ∈ validator.default, value.sorted = value

def ValuesSorted : Validator → Prop := Everywhere Sorted

theorem readDefault_ofJson {value : Json} {scope : Scope} (deep : value.depth ≤ scope.room)
    (sorted : value.sorted = value) :
    (Outline.ofJson value).readOption (Outline.readValue scope) =
      .ok (Json.nonNull (some value)) := by
  have read : Outline.readValue scope (Outline.ofJson value) = .ok value :=
    Outline.readValue_ofJson deep sorted
  cases value with
  | null => rfl
  | _ => exact Outline.readOption_ofJson (by simp) read

theorem layout_takeAll {inner : Outline → Except ReadError Validator} {validator : Validator}
    {room : Nat} {checked : Bool} (distinct : validator.rule.keyNames.Nodup)
    (sorted : validator.Sorted) (fits : validator.Fits room)
    (parts : ∀ part ∈ validator.inner, inner (Outline.ofJson part.toJson) = .ok part.readBack) :
    (layout inner).takeAll ⟨room + 1, checked⟩ Validator.any validator.members =
      .ok validator.readBack := by
  obtain ⟨rule, allow, valid, description, notes, default, label⟩ := validator
  let scope : Scope := ⟨room + 1, checked⟩
  let back := ruleReadBack rule
  have ruleTaken : (layout inner).takeAll scope Validator.any [("rule", ruleToJson rule)] =
      .ok ⟨back, [], none, none, [], none, none⟩ := by
    have read : Rule.read inner scope (Outline.ofJson (ruleToJson rule)) = .ok back :=
      readRule_ofJson distinct fits.rule parts
    simp [Layout.takeAll, Layout.take, Layout.find?, layout, read, Validator.any]
  have allowTaken : (layout inner).takeAll scope ⟨back, [], none, none, [], none, none⟩
      (Json.nonempty "allow" .array allow) = .ok ⟨back, allow, none, none, [], none, none⟩ := by
    have read : Outline.readValues scope (Outline.ofJson (.array allow)) = .ok allow :=
      Outline.readValues_ofJson fits.allow sorted.allow
    refine Layout.takeAll_nonempty (fun allow => Validator.mk back allow none none [] none none) ?_
    simp [Layout.take, Layout.find?, layout, read]
  have validTaken : (layout inner).takeAll scope ⟨back, allow, none, none, [], none, none⟩
      (Json.optional "valid" .array valid) = .ok ⟨back, allow, valid, none, [], none, none⟩ := by
    refine Layout.takeAll_optional (fun valid => Validator.mk back allow valid none [] none none)
      fun values given => ?_
    have read : (Outline.ofJson (.array values)).readOption (Outline.readValues scope) =
        .ok (some values) :=
      Outline.readOption_ofJson (by simp)
        (Outline.readValues_ofJson (fits.valid values given) (sorted.valid values given))
    simp [Layout.take, Layout.find?, layout, read]
  have descriptionTaken : (layout inner).takeAll scope ⟨back, allow, valid, none, [], none, none⟩
      (Json.optional "description" .string description) =
        .ok ⟨back, allow, valid, description, [], none, none⟩ :=
    Layout.takeAll_optional
      (fun description => Validator.mk back allow valid description [] none none) fun _ _ => rfl
  have notesTaken : (layout inner).takeAll scope
      ⟨back, allow, valid, description, [], none, none⟩
      (Json.nonempty "notes" Json.strings notes) =
        .ok ⟨back, allow, valid, description, notes, none, none⟩ := by
    refine Layout.takeAll_nonempty
      (fun notes => Validator.mk back allow valid description notes none none) ?_
    simp [Layout.take, Layout.find?, layout, Outline.readStrings_ofJson, scope]
  have defaultTaken : (layout inner).takeAll scope
      ⟨back, allow, valid, description, notes, none, none⟩ (Json.optional "default" id default) =
        .ok ⟨back, allow, valid, description, notes, Json.nonNull default, none⟩ := by
    refine Layout.takeAll_optional
      (fun default => Validator.mk back allow valid description notes (Json.nonNull default) none)
      fun value given => ?_
    have read : (Outline.ofJson value).readOption (Outline.readValue scope) =
        .ok (Json.nonNull (some value)) :=
      readDefault_ofJson (fits.default value given) (sorted.default value given)
    simp [Layout.take, Layout.find?, layout, read, Json.nonNull]
  have labelTaken : (layout inner).takeAll scope
      ⟨back, allow, valid, description, notes, Json.nonNull default, none⟩
      (Json.optional "label" .string label) =
        .ok ⟨back, allow, valid, description, notes, Json.nonNull default, label⟩ :=
    Layout.takeAll_optional
      (fun label => Validator.mk back allow valid description notes (Json.nonNull default) label)
      fun _ _ => rfl
  simp only [members, List.append_assoc]
  rw [Layout.takeAll_append ruleTaken, Layout.takeAll_append allowTaken,
    Layout.takeAll_append validTaken, Layout.takeAll_append descriptionTaken,
    Layout.takeAll_append notesTaken, Layout.takeAll_append defaultTaken, labelTaken]
  rfl

def readInner : Nat → Outline → Except ReadError Validator
  | room + 3 => readWithin room true
  | _ => fun _ => .error (.fault .tooDeep)

theorem readWithin_eq (room : Nat) (checked : Bool) (outline : Outline) :
    readWithin room checked outline =
      (layout (readInner room)).read ⟨room, checked⟩ outline := by
  match room with
  | 0 | 1 | 2 => rfl
  | room + 3 => rfl

theorem Keyed.readWithin_toJson (keyed : Keyed) (sorted : keyed.validator.ValuesSorted)
    {room : Nat} (deep : keyed.validator.toJson.depth ≤ room) (checked : Bool) :
    readWithin room checked (Outline.ofJson keyed.validator.toJson) =
      .ok keyed.validator.readBack := by
  induction keyed using Keyed.inductionOn generalizing room checked with
  | step keyed ih =>
      have parts : ∀ part ∈ keyed.validator.inner,
          readInner room (Outline.ofJson part.toJson) = .ok part.readBack := by
        intro part member
        have deeper := depth_add_le_of_mem_inner member
        obtain ⟨rest, rfl⟩ : ∃ rest, room = rest + 3 := ⟨room - 3, by omega⟩
        exact ih member (sorted.within member) (by omega : part.toJson.depth ≤ rest) true
      obtain ⟨rest, rfl, fits⟩ := exists_fits deep
      have taken : (layout (readInner (rest + 2))).takeAll ⟨rest + 1, checked⟩ Validator.any
          keyed.validator.members = .ok keyed.validator.readBack :=
        layout_takeAll keyed.keyNames_nodup sorted.here fits parts
      rw [readWithin_eq, toJson_eq, Outline.ofJson, Layout.read, Outline.enter]
      exact Layout.readObject_ofJson rfl (distinct_members keyed.validator)
        (by simp [layout, members, Entries.names]) taken

/-- A document with few enough levels is read without an error, and gives back the validator
exactly if no default in it is null. -/
theorem read_toJson_same_iff (keyed : Keyed) (sorted : keyed.validator.ValuesSorted)
    {scope : Scope} (deep : keyed.validator.toJson.depth ≤ scope.room) :
    read scope (Outline.ofJson keyed.validator.toJson) = .ok keyed.validator.readBack ∧
    (keyed.validator.readBack.same keyed.validator = true ↔ keyed.validator.DefaultsNonNull) :=
  ⟨keyed.readWithin_toJson sorted deep scope.checked, keyed.readBack_same_iff⟩

def unset : Validator :=
  { rule := .object [("setting", Validator.any.defaulting .null)] }

theorem read_toJson_same_iff_unset :
    (unset.KeysDistinct ∧ unset.ValuesSorted ∧ unset.toJson.depth ≤ Scope.outermost.room) ∧
    read .outermost (Outline.ofJson unset.toJson) = .ok unset.readBack ∧
    unset.readBack.same unset = false := by
  have inner_unset : ∀ part ∈ unset.inner, part = Validator.any.defaulting .null := by
    simp [unset, inner, Rule.inner]
  have distinct : unset.KeysDistinct := by
    apply keysDistinct_object (by simp [Entries.Distinct, Entries.names])
    simp only [List.forall_mem_cons]
    exact ⟨keysDistinct_leaf rfl rfl, by simp⟩
  have sorted : unset.ValuesSorted := by
    refine .intro ⟨by simp [unset], by simp [unset], by simp [unset]⟩ fun part member => ?_
    rw [inner_unset part member]
    exact .intro ⟨by simp [defaulting, Validator.any], by simp [defaulting, Validator.any],
      by simp [defaulting, Json.sorted]⟩ (by simp [inner, Rule.inner, defaulting, Validator.any])
  have deep : unset.toJson.depth ≤ Scope.outermost.room := by decide
  have hasNull : ¬ unset.DefaultsNonNull := by
    intro nonNull
    have within : Validator.any.defaulting .null ∈ unset.inner := by
      simp [unset, inner, Rule.inner]
    exact (nonNull.within within).here rfl
  obtain ⟨back, same⟩ := read_toJson_same_iff ⟨unset, distinct⟩ sorted deep
  exact ⟨⟨distinct, sorted, deep⟩, back, Bool.eq_false_iff.mpr fun equal => hasNull (same.mp equal)⟩

theorem nullDefault_lost :
    read .outermost (Outline.ofJson (Validator.any.defaulting .null).toJson) =
      .ok Validator.any ∧
    Validator.any.same (Validator.any.defaulting .null) = false := by
  constructor
  · rfl
  · simp [same, sameRule, sameOption, defaulting, Validator.any, sameValues]

end Validator

end FieldRules
