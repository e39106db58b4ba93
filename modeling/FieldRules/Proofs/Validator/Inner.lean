import FieldRules.Proofs.Entries
import FieldRules.Proofs.Json.Agreement
import FieldRules.Validator.Json

namespace FieldRules

/-! Validators lie within the rules of others: under the keys of an object and among
alternatives. What holds at every depth is proved by one induction over them. -/

namespace Rule

def inner : Rule V → List V
  | .object keys => keys.map Prod.snd
  | .alternatives options => options
  | _ => []

def keyNames : Rule V → List String
  | .object keys => Entries.names keys
  | _ => []

end Rule

namespace Validator

def inner (validator : Validator) : List Validator := validator.rule.inner

private theorem sizeOf_rule_lt (validator : Validator) :
    sizeOf validator.rule < sizeOf validator := by
  cases validator
  simp only [Validator.mk.sizeOf_spec]
  omega

theorem sizeOf_lt_of_mem_inner {validator part : Validator}
    (member : part ∈ validator.inner) : sizeOf part < sizeOf validator := by
  apply Nat.lt_trans _ (sizeOf_rule_lt validator)
  cases rule : validator.rule with
  | object keys =>
      obtain ⟨⟨name, _⟩, inKeys, rfl⟩ : ∃ key ∈ keys, key.2 = part := by
        simpa [inner, rule, Rule.inner] using member
      have smaller := List.sizeOf_lt_of_mem inKeys
      simp only [Prod.mk.sizeOf_spec] at smaller
      simp only [Rule.object.sizeOf_spec]
      omega
  | alternatives options =>
      have inOptions : part ∈ options := by
        simpa [inner, rule, Rule.inner] using member
      have smaller := List.sizeOf_lt_of_mem inOptions
      simp only [Rule.alternatives.sizeOf_spec]
      omega
  | any | array | boolean | number | string | date =>
      simp [inner, rule, Rule.inner] at member

@[elab_as_elim]
theorem inductionOn {motive : Validator → Prop} (validator : Validator)
    (step : ∀ validator, (∀ part ∈ validator.inner, motive part) → motive validator) :
    motive validator :=
  step validator fun part _ => inductionOn part step
termination_by sizeOf validator
decreasing_by exact sizeOf_lt_of_mem_inner ‹_›

/-- A property of a validator and of all validators within it, at every depth. -/
inductive Everywhere (holds : Validator → Prop) : Validator → Prop
  | intro {validator : Validator} (here : holds validator)
      (within : ∀ part ∈ validator.inner, Everywhere holds part) :
      Everywhere holds validator

/-- No object, at any depth, has two validators under one key. -/
def KeysDistinct : Validator → Prop :=
  Everywhere fun validator => validator.rule.keyNames.Nodup

namespace Everywhere

theorem here {holds : Validator → Prop} {validator : Validator}
    (everywhere : Everywhere holds validator) : holds validator := by
  cases everywhere with
  | intro here _ => exact here

theorem within {holds : Validator → Prop} {validator part : Validator}
    (everywhere : Everywhere holds validator) (member : part ∈ validator.inner) :
    Everywhere holds part := by
  cases everywhere with
  | intro _ within => exact within part member

end Everywhere

theorem everywhere_iff {holds : Validator → Prop} {validator : Validator} :
    Everywhere holds validator ↔
      holds validator ∧ ∀ part ∈ validator.inner, Everywhere holds part := by
  constructor
  · intro everywhere
    exact ⟨everywhere.here, fun part member => everywhere.within member⟩
  · rintro ⟨here, within⟩
    exact .intro here within

theorem KeysDistinct.congr {validator other : Validator} (rule : validator.rule = other.rule) :
    validator.KeysDistinct ↔ other.KeysDistinct := by
  rw [KeysDistinct, everywhere_iff, everywhere_iff, inner, inner, rule]

theorem keysDistinct_leaf {validator : Validator} (leaf : validator.inner = [])
    (keyless : validator.rule.keyNames = []) : validator.KeysDistinct :=
  .intro (by rw [keyless]; exact List.nodup_nil) (by simp [leaf])

theorem keysDistinct_object {keys : Entries Validator} (distinct : keys.Distinct)
    (each : ∀ key ∈ keys, key.2.KeysDistinct) :
    KeysDistinct { rule := .object keys } := by
  refine .intro distinct fun part member => ?_
  obtain ⟨key, inKeys, rfl⟩ := List.mem_map.mp member
  exact each key inKeys

theorem keysDistinct_alternatives {options : List Validator}
    (each : ∀ option ∈ options, option.KeysDistinct) : (alternatives options).KeysDistinct :=
  .intro List.nodup_nil each

/-- A validator as it is built and read: its objects, at every depth, keep their keys in a
map. -/
structure Keyed where
  validator : Validator
  keysDistinct : validator.KeysDistinct

namespace Keyed

def part (keyed : Keyed) {part : Validator} (member : part ∈ keyed.validator.inner) : Keyed where
  validator := part
  keysDistinct := keyed.keysDistinct.within member

theorem keyNames_nodup (keyed : Keyed) : keyed.validator.rule.keyNames.Nodup :=
  keyed.keysDistinct.here

@[elab_as_elim]
theorem inductionOn {motive : Keyed → Prop} (keyed : Keyed)
    (step : ∀ keyed : Keyed,
      (∀ {part} (member : part ∈ keyed.validator.inner), motive (keyed.part member)) →
      motive keyed) : motive keyed := by
  obtain ⟨validator, distinct⟩ := keyed
  induction validator using Validator.inductionOn with
  | step validator ih => exact step _ fun member => ih _ member _

end Keyed

/-! Functions on the validators of a list or of an object are taken one by one. -/

theorem optionsToJson_eq (options : List Validator) :
    optionsToJson options = options.map toJson := by
  induction options with
  | nil => rfl
  | cons option rest ih => simp [optionsToJson, ih]

theorem keysToJson_eq (keys : Entries Validator) : keysToJson keys = keys.mapValues toJson := by
  induction keys with
  | nil => rfl
  | cons key rest ih =>
      simp only [Entries.mapValues] at ih
      simp [keysToJson, Entries.mapValues, ih]

end Validator

/-! What a validator is read back as, and when that is the same validator. -/

def Json.nonNull : Option Json → Option Json
  | some .null => none
  | default => default

namespace Validator

mutual

def readBack : Validator → Validator
  | ⟨rule, allow, valid, description, notes, default, label⟩ =>
      ⟨ruleReadBack rule, allow, valid, description, notes, Json.nonNull default, label⟩

def ruleReadBack : Rule Validator → Rule Validator
  | .object keys => .object (keysReadBack keys)
  | .alternatives options => .alternatives (optionsReadBack options)
  | rule => rule

def keysReadBack : List (String × Validator) → List (String × Validator)
  | [] => []
  | (name, validator) :: rest => (name, readBack validator) :: keysReadBack rest

def optionsReadBack : List Validator → List Validator
  | [] => []
  | validator :: rest => readBack validator :: optionsReadBack rest

end

theorem optionsReadBack_eq (options : List Validator) :
    optionsReadBack options = options.map readBack := by
  induction options with
  | nil => rfl
  | cons option rest ih => simp [optionsReadBack, ih]

theorem keysReadBack_eq (keys : Entries Validator) :
    keysReadBack keys = keys.mapValues readBack := by
  induction keys with
  | nil => rfl
  | cons key rest ih =>
      simp only [Entries.mapValues] at ih
      simp [keysReadBack, Entries.mapValues, ih]

/-! Only a null default makes a difference between a validator and what is read back. -/

theorem sameKeys_eq (first second : Entries Validator) :
    sameKeys first second =
      first.all fun key => (second.get? key.1).any fun validator => key.2.same validator := by
  induction first with
  | nil => simp [sameKeys]
  | cons key rest ih =>
      obtain ⟨name, validator⟩ := key
      cases found : second.get? name with
      | none => simp [sameKeys, found]
      | some other => simp [sameKeys, found, ih]

theorem sameOptions_map_iff (f : Validator → Validator) (options : List Validator) :
    sameOptions (options.map f) options = true ↔
      ∀ option ∈ options, (f option).same option = true := by
  induction options with
  | nil => simp [sameOptions]
  | cons option rest ih => simp [sameOptions, ih]

theorem sameRule_readBack_iff {rule : Rule Validator} (distinct : rule.keyNames.Nodup) :
    sameRule (ruleReadBack rule) rule = true ↔
      ∀ part ∈ rule.inner, part.readBack.same part = true := by
  cases rule with
  | object keys =>
      have found : ∀ key ∈ keys, Entries.get? keys key.1 = some key.2 :=
        fun key member => Entries.Distinct.get?_of_mem distinct member
      simp only [ruleReadBack, keysReadBack_eq, sameRule, sameKeys_eq, Entries.mapValues,
        List.length_map, beq_self_eq_true, Bool.true_and, List.all_map, List.all_eq_true,
        Function.comp_apply, Rule.inner, List.forall_mem_map]
      refine forall₂_congr fun key member => ?_
      rw [found key member, Option.any_some]
  | alternatives options =>
      rw [ruleReadBack, optionsReadBack_eq, sameRule]
      exact sameOptions_map_iff readBack options
  | any | array | boolean | number | string | date =>
      simp [ruleReadBack, sameRule, Rule.inner, Rule.kind]

theorem sameOption_nonNull_iff (default : Option Json) :
    sameOption Json.same (Json.nonNull default) default = true ↔ default ≠ some .null := by
  cases default with
  | none => simp [Json.nonNull, sameOption]
  | some value =>
      cases value with
      | null => simp [Json.nonNull, sameOption]
      | _ => simp [Json.nonNull, sameOption, Json.same_refl]

def DefaultsNonNull : Validator → Prop :=
  Everywhere fun validator => validator.default ≠ some .null

theorem Keyed.readBack_same_iff (keyed : Keyed) :
    keyed.validator.readBack.same keyed.validator = true ↔ keyed.validator.DefaultsNonNull := by
  induction keyed using Keyed.inductionOn with
  | step keyed ih =>
      have parts : (∀ part ∈ keyed.validator.inner, part.readBack.same part = true) ↔
          ∀ part ∈ keyed.validator.inner, part.DefaultsNonNull :=
        forall₂_congr fun part member => ih member
      rw [DefaultsNonNull, everywhere_iff]
      obtain ⟨⟨rule, allow, valid, description, notes, default, label⟩, distinct⟩ := keyed
      have validSame : sameOption sameValues valid valid = true := by
        cases valid with
        | none => rfl
        | some values => exact Json.sameItems_refl values
      have allowSame : sameValues allow allow = true := Json.sameItems_refl allow
      simp only [readBack, same, allowSame, validSame, beq_self_eq_true, Bool.and_true,
        Bool.and_eq_true, sameOption_nonNull_iff]
      rw [sameRule_readBack_iff distinct.here, and_comm]
      exact and_congr_right' parts

end Validator

end FieldRules
