import FieldRules.Proofs.Draft7.Issue
import FieldRules.Proofs.Validator.Inner

namespace FieldRules.Validator

open Draft7

/-! The schemas of validators, part by part, are regular. -/

theorem optionSchemas_eq (extensions : Bool) (options : List Validator) :
    optionSchemas extensions options = options.map (schema extensions) := by
  induction options with
  | nil => rfl
  | cons option rest ih => simp [optionSchemas, ih]

theorem keySchemas_eq (extensions : Bool) (keys : Entries Validator) :
    keySchemas extensions keys = keys.mapValues (schema extensions) := by
  induction keys with
  | nil => rfl
  | cons key rest ih =>
      simp only [Entries.mapValues] at ih
      simp [keySchemas, Entries.mapValues, ih]

theorem ruleSchema_regular {extensions : Bool} {rule : Rule Validator}
    (distinct : rule.keyNames.Nodup) : (ruleSchema extensions rule).Regular := by
  constructor
  · cases rule with
    | object keys =>
        intro schemas member
        obtain ⟨_, rfl⟩ : keys ≠ [] ∧ keySchemas extensions keys = schemas := by
          simpa [ruleSchema] using member
        simpa [keySchemas_eq, Entries.Distinct, Rule.keyNames] using distinct
    | _ => simp [ruleSchema]
  · cases rule with
    | string max guid =>
        cases guid with
        | false => simp [ruleSchema]
        | true => simp [ruleSchema]
    | date iso format =>
        cases iso with
        | false => simp [ruleSchema]
        | true => simp [ruleSchema]
    | _ => simp [ruleSchema]
  · cases rule with
    | date iso format =>
        cases iso with
        | false => simp [ruleSchema]
        | true => simp [ruleSchema]
    | _ => simp [ruleSchema]

theorem enum_regular (values : List Json) : Schema.Regular { enum := some values } :=
  ⟨by simp, by simp, List.nodup_nil⟩

theorem schema_regular {extensions : Bool} {validator : Validator}
    (distinct : validator.rule.keyNames.Nodup) : (validator.schema extensions).Regular := by
  have regular := @ruleSchema_regular extensions validator.rule distinct
  obtain ⟨rule, allow, valid, description, notes, default, label⟩ := validator
  cases valid with
  | some valid => exact ⟨by simp [schema, document], by simp [schema, document], List.nodup_nil⟩
  | none =>
      cases allow with
      | nil => exact ⟨regular.properties, regular.pattern, regular.types⟩
      | cons => exact ⟨by simp [schema, document], by simp [schema, document], List.nodup_nil⟩

end FieldRules.Validator

namespace FieldRules

open Draft7

/-! What a validator admits, said of the validator itself, is what its schema accepts. -/

namespace Validator

mutual

/-- Listed values are admitted; a set of valid values stands in place of the rule. -/
def admits (engine : Engine) : Validator → Json → Bool
  | ⟨rule, allow, valid, _, _, _, _⟩, value =>
      engine.lists allow value ||
        match valid with
        | some valid => engine.lists valid value
        | none => ruleAdmits engine rule value

def ruleAdmits (engine : Engine) : Rule Validator → Json → Bool
  | .any, _ => true
  | .array, value => JsonType.array.accepts value
  | .boolean, value => JsonType.boolean.accepts value
  | .number integer _, .number value => !integer || value.isWhole
  | .string max guid, .string text =>
      max.all (text.length ≤ ·.toNat) && (!guid || engine.finds Pattern.guid.source text)
  | .date iso _, .string text => !iso || engine.finds Pattern.iso8601.source text
  | .date iso _, .number _ => !iso
  | .object keys, .object members =>
      keys.isEmpty || members.all fun member => keyAdmits engine keys member.1 member.2
  | .alternatives options, value => someAdmits engine options value
  | _, _ => false

def keyAdmits (engine : Engine) : List (String × Validator) → String → Json → Bool
  | [], _, _ => false
  | (key, validator) :: rest, name, value =>
      if name = key then admits engine validator value else keyAdmits engine rest name value

def someAdmits (engine : Engine) : List Validator → Json → Bool
  | [], _ => false
  | validator :: rest, value => admits engine validator value || someAdmits engine rest value

end

variable (engine : Engine)

theorem admits_eq (validator : Validator) (value : Json) :
    validator.admits engine value =
      (engine.lists validator.allow value ||
        match validator.valid with
        | some valid => engine.lists valid value
        | none => ruleAdmits engine validator.rule value) := by
  cases validator with
  | mk rule allow valid description notes default label =>
      cases valid with
      | none => rfl
      | some valid => rfl

theorem keyAdmits_eq (keys : Entries Validator) (name : String) (value : Json) :
    keyAdmits engine keys name value = (keys.get? name).any (·.admits engine value) := by
  induction keys with
  | nil => rfl
  | cons key rest ih =>
      obtain ⟨other, validator⟩ := key
      by_cases equal : name = other
      · simp [keyAdmits, equal]
      · simp [keyAdmits, equal, ih]

theorem someAdmits_eq (options : List Validator) (value : Json) :
    someAdmits engine options value = options.any (·.admits engine value) := by
  induction options with
  | nil => rfl
  | cons option rest ih => simp [someAdmits, ih]

/-- Leaving out exceptions that are valid anyway takes no value away. -/
theorem lists_accepted (valid allow : List Json) (value : Json) :
    engine.lists (accepted valid allow) value =
      (engine.lists allow value || engine.lists valid value) := by
  rw [Bool.eq_iff_iff]
  simp only [Engine.lists, accepted, List.any_eq_true, List.mem_append, List.mem_filter,
    Bool.or_eq_true, Bool.not_eq_true']
  constructor
  · rintro ⟨listed, inValid | ⟨inAllow, _⟩, equal⟩
    · exact Or.inr ⟨listed, inValid, equal⟩
    · exact Or.inl ⟨listed, inAllow, equal⟩
  · rintro (⟨listed, inAllow, equal⟩ | ⟨listed, inValid, equal⟩)
    · cases already : listed.isIn valid with
      | false => exact ⟨listed, Or.inr ⟨inAllow, already⟩, equal⟩
      | true =>
          obtain ⟨other, inValid, same⟩ := List.any_eq_true.mp already
          refine ⟨other, Or.inl inValid, ?_⟩
          rw [Engine.equal, ← Json.agree_congr engine.respects value listed other same]
          exact equal
    · exact ⟨listed, Or.inl inValid, equal⟩

theorem lists_addNew (values more : List Json) (value : Json) :
    engine.lists (Json.addNew values more) value =
      (engine.lists values value || engine.lists more value) :=
  Json.any_addNew engine.respects values more value

theorem admits_allowing (validator : Validator) (values : List Json) (value : Json) :
    (validator.allowing values).admits engine value =
      (validator.admits engine value || engine.lists values value) := by
  rw [admits_eq, admits_eq, allowing, lists_addNew, Bool.or_assoc, Bool.or_assoc]
  congr 1
  exact Bool.or_comm _ _

/-! The schema of a validator under any reading of schemas that goes by their keywords. -/

section

variable {engine} {follows : Schema → Json → Bool} {extensions : Bool}

theorem membersFollow_keySchemas (keys : Entries Validator)
    (parts : ∀ part ∈ keys.map Prod.snd, ∀ value,
      follows (part.schema extensions) value = part.admits engine value) (value : Json) :
    Engine.membersFollow follows (keySchemas extensions keys) value =
      value.members.all fun member => keyAdmits engine keys member.1 member.2 := by
  have each : ∀ member : String × Json,
      ((Entries.get? (keySchemas extensions keys) member.1).any (follows · member.2)) =
        keyAdmits engine keys member.1 member.2 := by
    intro member
    rw [keyAdmits_eq, keySchemas_eq, Entries.get?_mapValues]
    cases found : keys.get? member.1 with
    | none => rfl
    | some validator =>
        exact parts validator (List.mem_map_of_mem (Entries.mem_of_get? found)) member.2
  simp only [Engine.membersFollow, each]

theorem obeys_ruleSchema (rule : Rule Validator)
    (parts : ∀ part ∈ rule.inner, ∀ value,
      follows (part.schema extensions) value = part.admits engine value) (value : Json) :
    engine.obeys follows (ruleSchema extensions rule) value = ruleAdmits engine rule value := by
  cases rule with
  | any => rfl
  | array => simp [ruleSchema, ruleAdmits, Engine.obeys]
  | boolean => simp [ruleSchema, ruleAdmits, Engine.obeys]
  | number integer precision =>
      cases integer with
      | false =>
          cases value with
          | number number => simp [ruleSchema, ruleAdmits, Engine.obeys, JsonType.accepts]
          | _ => simp [ruleSchema, ruleAdmits, Engine.obeys, JsonType.accepts]
      | true =>
          cases value with
          | number number => simp [ruleSchema, ruleAdmits, Engine.obeys, JsonType.accepts]
          | _ => simp [ruleSchema, ruleAdmits, Engine.obeys, JsonType.accepts]
  | string max guid =>
      cases value with
      | string text =>
          cases guid with
          | false =>
              simp [ruleSchema, ruleAdmits, Engine.obeys, JsonType.accepts, Engine.withinLength]
          | true =>
              simp [ruleSchema, ruleAdmits, Engine.obeys, JsonType.accepts, Engine.withinLength,
                Engine.foundIn]
      | _ => simp [ruleSchema, ruleAdmits, Engine.obeys, JsonType.accepts]
  | date iso format =>
      cases iso with
      | false =>
          cases value with
          | string text => simp [ruleSchema, ruleAdmits, Engine.obeys, JsonType.accepts]
          | number number => simp [ruleSchema, ruleAdmits, Engine.obeys, JsonType.accepts]
          | _ => simp [ruleSchema, ruleAdmits, Engine.obeys, JsonType.accepts]
      | true =>
          cases value with
          | string text =>
              simp [ruleSchema, ruleAdmits, Engine.obeys, JsonType.accepts, Engine.foundIn]
          | _ => simp [ruleSchema, ruleAdmits, Engine.obeys, JsonType.accepts]
  | object keys =>
      have follow := membersFollow_keySchemas keys parts value
      cases keys with
      | nil =>
          cases value with
          | object members => rfl
          | _ => rfl
      | cons key rest =>
          cases value with
          | object members =>
              simp [ruleSchema, ruleAdmits, Engine.obeys, JsonType.accepts, follow, Json.members]
          | _ => simp [ruleSchema, ruleAdmits, Engine.obeys, JsonType.accepts]
  | alternatives options =>
      have follow : ∀ option ∈ options,
          follows (option.schema extensions) value = option.admits engine value :=
        fun option member => parts option member value
      rw [ruleAdmits, someAdmits_eq, Bool.eq_iff_iff]
      simp only [ruleSchema, Engine.obeys, optionSchemas_eq, Option.all_none, Option.all_some,
        List.any_map, List.isEmpty_nil, Bool.true_and, Bool.and_true, Bool.true_or,
        List.any_eq_true, Function.comp_apply]
      constructor
      · rintro ⟨option, member, accepts⟩
        exact ⟨option, member, follow option member ▸ accepts⟩
      · rintro ⟨option, member, accepts⟩
        exact ⟨option, member, (follow option member).symm ▸ accepts⟩

/-- Where schemas are read by their keywords, a validator's schema accepts what the
validator admits. -/
theorem Keyed.follows_schema
    (reads : ∀ schema : Schema, schema.Regular → ∀ value,
      follows schema value = engine.obeys follows schema value)
    (keyed : Keyed) (value : Json) :
    follows (keyed.validator.schema extensions) value = keyed.validator.admits engine value := by
  induction keyed using Keyed.inductionOn generalizing value with
  | step keyed ih =>
      have regular : (ruleSchema extensions keyed.validator.rule).Regular :=
        ruleSchema_regular keyed.keyNames_nodup
      have ruled : follows (ruleSchema extensions keyed.validator.rule) value =
          ruleAdmits engine keyed.validator.rule value := by
        rw [reads _ regular]
        exact obeys_ruleSchema keyed.validator.rule
          (fun part member value => ih member value) value
      rw [admits_eq, reads _ (schema_regular keyed.keyNames_nodup)]
      obtain ⟨⟨rule, allow, valid, description, notes, default, label⟩, distinct⟩ := keyed
      cases valid with
      | some valid =>
          rw [← lists_accepted]
          simp [schema, document, Engine.obeys]
      | none =>
          cases allow with
          | nil =>
              rw [reads _ regular] at ruled
              exact ruled
          | cons first others =>
              have listed : follows { enum := some (first :: others) } value =
                  engine.lists (first :: others) value := by
                rw [reads _ (enum_regular (first :: others))]
                simp [Engine.obeys]
              simp [schema, document, Engine.obeys, listed, ruled, Bool.or_comm]

end

theorem Keyed.satisfies_schema (keyed : Keyed) {extensions : Bool} {value : Json} :
    engine.satisfies (keyed.validator.schema extensions).toJson value =
      keyed.validator.admits engine value :=
  keyed.follows_schema
    (fun _ regular value => engine.satisfies_toJson regular.properties value) value

theorem Keyed.accepts_schema (keyed : Keyed) {extensions : Bool} {value : Json} :
    (keyed.validator.schema extensions).accepts value = keyed.validator.admits .draft7 value :=
  keyed.follows_schema (fun _ regular value => regular.accepts_eq value) value

/-- The schema of a validator means what the validator admits, both as a document that an
engine reads and in the issues that it finds with a value. -/
theorem schema_accepts_eq_admits (keyed : Keyed) (extensions : Bool) (value : Json) :
    (∀ engine : Engine,
      engine.satisfies (keyed.validator.schema extensions).toJson value =
        keyed.validator.admits engine value) ∧
    (keyed.validator.schema extensions).accepts value = keyed.validator.admits .draft7 value :=
  ⟨fun engine => keyed.satisfies_schema engine, keyed.accepts_schema⟩

/-- A short name or nothing, and a whole number or a date. -/
def contact : Validator :=
  { rule := .object [
      ("name", { rule := .string (some 4) false, allow := [.null] }),
      ("reach", .alternatives [Validator.number.integer, .date])] }

theorem contact_keysDistinct : contact.KeysDistinct := by
  apply keysDistinct_object (by simp [Entries.Distinct, Entries.names])
  simp only [List.forall_mem_cons]
  refine ⟨keysDistinct_leaf rfl rfl, keysDistinct_alternatives ?_, by simp⟩
  simp only [List.forall_mem_cons]
  exact ⟨keysDistinct_leaf rfl rfl, keysDistinct_leaf rfl rfl, by simp⟩

theorem schema_accepts_eq_admits_contact :
    contact.KeysDistinct ∧
    (∀ engine : Engine,
      engine.satisfies (contact.schema false).toJson (.object [("name", .null)]) =
        contact.admits engine (.object [("name", .null)])) ∧
    (contact.schema true).accepts (.object [("name", .null), ("reach", .string "")]) = true ∧
    (contact.schema true).accepts (.object [("name", .string "Olivia")]) = false := by
  have means := schema_accepts_eq_admits ⟨contact, contact_keysDistinct⟩
  exact ⟨contact_keysDistinct, (means false _).1, (means true _).2, (means true _).2⟩

end Validator

end FieldRules

namespace FieldRules.Validator

open Draft7

/-! A validator's schema has a branch in each of its choices exactly if the validator has an
alternative wherever its rule leaves a choice. -/

/-- Where valid values take the place of the rule, nothing is left to choose. -/
inductive OffersChoices : Validator → Prop
  | listed {validator : Validator} (valid : validator.valid.isSome) : OffersChoices validator
  | ruled {validator : Validator} (offered : validator.kind = .alternatives → validator.inner ≠ [])
      (within : ∀ part ∈ validator.inner, OffersChoices part) : OffersChoices validator

theorem offersChoices_iff {validator : Validator} :
    validator.OffersChoices ↔
      validator.valid.isSome ∨
        ((validator.kind = .alternatives → validator.inner ≠ []) ∧
          ∀ part ∈ validator.inner, part.OffersChoices) := by
  constructor
  · intro offers
    cases offers with
    | listed valid => exact Or.inl valid
    | ruled offered within => exact Or.inr ⟨offered, within⟩
  · rintro (valid | ⟨offered, within⟩)
    · exact .listed valid
    · exact .ruled offered within

theorem OffersChoices.congr {validator other : Validator} (rule : validator.rule = other.rule)
    (valid : validator.valid = other.valid) : validator.OffersChoices ↔ other.OffersChoices := by
  rw [offersChoices_iff, offersChoices_iff, kind, kind, inner, inner, rule, valid]

theorem offersChoices_alternatives_iff {options : List Validator} :
    (alternatives options).OffersChoices ↔
      options ≠ [] ∧ ∀ option ∈ options, option.OffersChoices := by
  rw [offersChoices_iff]
  simp [alternatives, kind, inner, Rule.kind, Rule.inner]

section

variable {shaped : Schema → Prop} {extensions : Bool}

/-- A condition on schemas that asks for a branch in every choice and for itself within. -/
def AsksForBranches (shaped : Schema → Prop) : Prop :=
  ∀ {schema : Schema}, schema.Regular → (shaped schema ↔
    (∀ schemas ∈ schema.properties, ∀ property ∈ schemas, shaped property.2) ∧
    ∀ branches ∈ schema.anyOf, branches ≠ [] ∧ ∀ branch ∈ branches, shaped branch)

theorem shaped_ruleSchema_iff (asks : AsksForBranches shaped) {rule : Rule Validator}
    (distinct : rule.keyNames.Nodup) :
    shaped (ruleSchema extensions rule) ↔
      (rule.kind = .alternatives → rule.inner ≠ []) ∧
        ∀ part ∈ rule.inner, shaped (part.schema extensions) := by
  rw [asks (ruleSchema_regular distinct)]
  cases rule with
  | object keys =>
      cases keys with
      | nil => simp [ruleSchema, Rule.kind, Rule.inner]
      | cons key rest =>
          have each : (∀ property ∈ keySchemas extensions (key :: rest), shaped property.2) ↔
              ∀ part ∈ (Rule.object (key :: rest)).inner, shaped (part.schema extensions) := by
            simp only [keySchemas_eq, Entries.mapValues, Rule.inner, List.forall_mem_map]
          rw [← each]
          simp [ruleSchema, Rule.kind]
  | alternatives options =>
      simp [ruleSchema, optionSchemas_eq, Rule.kind, Rule.inner]
  | any | array | boolean | number | string | date =>
      simp [ruleSchema, Rule.kind, Rule.inner]

theorem Keyed.shaped_schema_iff (asks : AsksForBranches shaped) (keyed : Keyed) :
    shaped (keyed.validator.schema extensions) ↔ keyed.validator.OffersChoices := by
  induction keyed using Keyed.inductionOn with
  | step keyed ih =>
      have ruled : shaped (ruleSchema extensions keyed.validator.rule) ↔
          (keyed.validator.kind = .alternatives → keyed.validator.inner ≠ []) ∧
            ∀ part ∈ keyed.validator.inner, part.OffersChoices := by
        rw [shaped_ruleSchema_iff asks keyed.keyNames_nodup]
        exact and_congr_right' (forall₂_congr fun part member => ih member)
      rw [asks (schema_regular keyed.keyNames_nodup), offersChoices_iff]
      have regular : (ruleSchema extensions keyed.validator.rule).Regular :=
        ruleSchema_regular keyed.keyNames_nodup
      obtain ⟨⟨rule, allow, valid, description, notes, default, label⟩, distinct⟩ := keyed
      cases valid with
      | some valid => simp [schema, document]
      | none =>
          rw [← ruled]
          cases allow with
          | nil =>
              rw [asks regular]
              simp [schema, document]
          | cons first others =>
              have listed : shaped { enum := some (first :: others) } := by
                rw [asks (enum_regular (first :: others))]
                simp
              simp [schema, document, listed]

end

end FieldRules.Validator
