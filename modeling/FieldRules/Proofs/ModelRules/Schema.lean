import FieldRules.CommandLine.Outcome
import FieldRules.Proofs.ModelRules.Compile
import FieldRules.Proofs.Validator.Schema

namespace FieldRules

open Draft7

/-! The schema of a model is in shape exactly if its overrides offer what they leave to
choose: the validators that types give always do. -/

namespace Validator

/-- A validator without validators inside that leaves nothing to choose. -/
structure Leaf (validator : Validator) : Prop where
  inner : validator.inner = []
  keyNames : validator.rule.keyNames = []
  kind : validator.kind ≠ .alternatives

theorem Leaf.keysDistinct {validator : Validator} (leaf : validator.Leaf) :
    validator.KeysDistinct := keysDistinct_leaf leaf.inner leaf.keyNames

theorem Leaf.offersChoices {validator : Validator} (leaf : validator.Leaf) :
    validator.OffersChoices :=
  .ruled (fun equal => absurd equal leaf.kind) (by simp [leaf.inner])

end Validator

namespace Attribute

open Validator

/-- The rule of a type has no rules inside, but for geometries and for types that take
sequences and objects. -/
theorem base?_cases {attr : Attribute} {resolved : ResolvedType} {validator : Validator}
    (given : attr.base? resolved = some validator) :
    validator.Leaf ∨ validator = geometry ∨ validator = sequenceOrObject := by
  unfold base? at given
  cases type : resolved.type with
  | geometry =>
      rw [type] at given
      exact Or.inr (Or.inl (Option.some.inj given).symm)
  | json | jsonb | other =>
      rw [type] at given
      exact Or.inr (Or.inr (Option.some.inj given).symm)
  | enumeration =>
      rw [type] at given
      obtain ⟨values, _, rfl⟩ := Option.map_eq_some_iff.mp given
      exact Or.inl ⟨rfl, rfl, nofun⟩
  | _ =>
      rw [type] at given
      cases given
      exact Or.inl ⟨rfl, rfl, nofun⟩

theorem geometry_sound : geometry.KeysDistinct ∧ geometry.OffersChoices := by
  have parts : geometry.inner =
      [Validator.string.restrictedTo (geometryTypes.map .string), .array, .object] := rfl
  have leaf : ∀ part ∈ geometry.inner, part.Leaf := by
    rw [parts]
    simp only [List.forall_mem_cons]
    exact ⟨⟨rfl, rfl, nofun⟩, ⟨rfl, rfl, nofun⟩, ⟨rfl, rfl, nofun⟩, nofun⟩
  exact ⟨.intro (by decide) fun part member => (leaf part member).keysDistinct,
    .ruled nofun fun part member => (leaf part member).offersChoices⟩

theorem sequenceOrObject_sound :
    sequenceOrObject.KeysDistinct ∧ sequenceOrObject.OffersChoices := by
  have leaf : ∀ part ∈ [Validator.array, .object], part.Leaf := by
    simp only [List.forall_mem_cons]
    exact ⟨⟨rfl, rfl, nofun⟩, ⟨rfl, rfl, nofun⟩, nofun⟩
  exact ⟨keysDistinct_alternatives fun part member => (leaf part member).keysDistinct,
    offersChoices_alternatives_iff.mpr
      ⟨by simp, fun part member => (leaf part member).offersChoices⟩⟩

theorem base?_sound {attr : Attribute} {resolved : ResolvedType} {validator : Validator}
    (given : attr.base? resolved = some validator) :
    validator.KeysDistinct ∧ validator.OffersChoices := by
  rcases base?_cases given with leaf | rfl | rfl
  · exact ⟨leaf.keysDistinct, leaf.offersChoices⟩
  · exact geometry_sound
  · exact sequenceOrObject_sound

theorem standard?_sound {attr : Attribute} {resolved : ResolvedType} {validator : Validator}
    (given : attr.standard? resolved = some validator) :
    validator.KeysDistinct ∧ validator.OffersChoices := by
  obtain ⟨base, isBase, rfl⟩ := Option.map_eq_some_iff.mp given
  obtain ⟨distinct, offers⟩ := base?_sound isBase
  have rule : (orNull base).rule = base.rule := rfl
  have valid : (orNull base).valid = base.valid := rfl
  split
  · exact ⟨(KeysDistinct.congr rule).mpr distinct, (OffersChoices.congr rule valid).mpr offers⟩
  · exact ⟨distinct, offers⟩

/-- What is added to a validator or an override does not matter to its choices. -/
theorem compile_sound {attr : Attribute} {modelName key : String} {validator : Validator}
    {type : TypeEntry} (compiled : attr.compile modelName key = .ok (validator, type))
    (distinct : ∀ override ∈ attr.override, override.KeysDistinct) :
    validator.KeysDistinct ∧
    (validator.OffersChoices ↔ ∀ override ∈ attr.override, override.OffersChoices) := by
  obtain ⟨_, resolved, standard, _, _, given, rfl, _⟩ := compile_ok compiled
  have sameKeys : ∀ {plain : Validator}, (attr.annotate key plain).KeysDistinct ↔
      plain.KeysDistinct := KeysDistinct.congr rfl
  have sameChoices : ∀ {plain : Validator}, (attr.annotate key plain).OffersChoices ↔
      plain.OffersChoices := OffersChoices.congr rfl rfl
  rw [sameKeys, sameChoices]
  cases overriding : attr.override with
  | none =>
      obtain ⟨standardDistinct, offers⟩ := standard?_sound given
      exact ⟨standardDistinct, iff_of_true offers nofun⟩
  | some override =>
      exact ⟨distinct override overriding, by simp⟩

theorem satisfies_compiled {attr : Attribute} {modelName key : String} {validator : Validator}
    {type : TypeEntry} (compiled : attr.compile modelName key = .ok (validator, type))
    (standard : attr.override = none) (engine : Engine) {extensions : Bool} {value : Json} :
    engine.satisfies (validator.schema extensions).toJson value =
      validator.admits engine value := by
  have distinct := (compile_sound compiled (by simp [standard])).1
  exact Keyed.satisfies_schema engine ⟨validator, distinct⟩

end Attribute

namespace ModelRules

/-- Attributes as they are built and read: the objects of their overrides keep their keys in
maps. -/
structure KeyedAttributes where
  attributes : List (String × Attribute)
  keysDistinct : ∀ entry ∈ attributes, ∀ override ∈ entry.2.override, override.KeysDistinct

/-- The override of a key's last attribute, if it has one, offers what it leaves to choose. -/
def OverridesOfferChoices (attributes : List (String × Attribute)) : Prop :=
  ∀ key attr, Entries.last? attributes key = some attr →
    ∀ override ∈ attr.override, override.OffersChoices

variable {modelName : String} {attributes : List (String × Attribute)} {rules : ModelRules}

theorem FollowsLast.validators_distinct (follows : FollowsLast modelName attributes rules) :
    rules.validators.Distinct := by
  rw [Entries.Distinct, follows.validator_names, ← Entries.names_ofList]
  exact Entries.distinct_ofList attributes

/-- Every validator is compiled from the last attribute of its key. -/
theorem FollowsLast.exists_of_mem (follows : FollowsLast modelName attributes rules)
    {key : String} {validator : Validator} (member : (key, validator) ∈ rules.validators) :
    ∃ attr type, Entries.last? attributes key = some attr ∧
      attr.compile modelName key = .ok (validator, type) := by
  have known : key ∈ Entries.names attributes := by
    have inNames : key ∈ rules.validators.names := List.mem_map_of_mem member
    simpa [follows.validator_names, List.mem_eraseDups] using inNames
  obtain ⟨attr, isLast⟩ : ∃ attr, Entries.last? attributes key = some attr := by
    apply Option.ne_none_iff_exists'.mp
    rw [ne_eq, Entries.last?_eq_none_iff, not_not]
    exact known
  obtain ⟨compiled, type, field, found, _⟩ := follows.field key attr isLast
  obtain rfl : validator = compiled := by
    simpa [follows.validators_distinct.get?_of_mem member] using found
  exact ⟨attr, type, isLast, field⟩

theorem FollowsLast.overrides_iff {keyed : KeyedAttributes}
    (follows : FollowsLast modelName keyed.attributes rules) :
    (∀ entry ∈ rules.validators, entry.2.KeysDistinct) ∧
    ((∀ entry ∈ rules.validators, entry.2.OffersChoices) ↔
      OverridesOfferChoices keyed.attributes) := by
  have sound : ∀ {key attr validator type}, Entries.last? keyed.attributes key = some attr →
      attr.compile modelName key = .ok (validator, type) →
      validator.KeysDistinct ∧
        (validator.OffersChoices ↔ ∀ override ∈ attr.override, override.OffersChoices) := by
    intro key attr validator type isLast compiled
    exact Attribute.compile_sound compiled (keyed.keysDistinct _ (Entries.mem_of_last? isLast))
  refine ⟨?_, ?_, ?_⟩
  · rintro ⟨key, validator⟩ member
    obtain ⟨attr, type, isLast, compiled⟩ := follows.exists_of_mem member
    exact (sound isLast compiled).1
  · intro offers key attr isLast
    obtain ⟨validator, type, compiled, found, _⟩ := follows.field key attr isLast
    exact (sound isLast compiled).2.mp (offers _ (Entries.mem_of_get? found))
  · rintro offers ⟨key, validator⟩ member
    obtain ⟨attr, type, isLast, compiled⟩ := follows.exists_of_mem member
    exact (sound isLast compiled).2.mpr (offers key attr isLast)

theorem FollowsLast.root_regular (follows : FollowsLast modelName attributes rules)
    (extensions : Bool) : (rules.schema extensions).root.Regular where
  properties := by
    simpa [schema, Entries.Distinct] using follows.validators_distinct
  pattern := by simp [schema]
  types := List.nodup_singleton _

/-- A condition that asks for branches holds of a model's schema if the overrides offer
choices. -/
theorem FollowsLast.shaped_root_iff {keyed : KeyedAttributes}
    (follows : FollowsLast modelName keyed.attributes rules) {shaped : Schema → Prop}
    (asks : Validator.AsksForBranches shaped) (extensions : Bool) :
    shaped (rules.schema extensions).root ↔ OverridesOfferChoices keyed.attributes := by
  obtain ⟨keysDistinct, offers⟩ := follows.overrides_iff
  have each : (∀ entry ∈ rules.validators, shaped (entry.2.schema extensions)) ↔
      ∀ entry ∈ rules.validators, entry.2.OffersChoices :=
    forall₂_congr fun entry member =>
      Validator.Keyed.shaped_schema_iff asks ⟨entry.2, keysDistinct entry member⟩
  rw [asks (follows.root_regular extensions), ← offers, ← each]
  simp only [schema, Option.mem_some_iff, forall_eq', Entries.mapValues, List.forall_mem_map]
  simp

/-- What a document says about the model as a whole is in shape. -/
theorem wellShaped_document_iff (document : Document) :
    WellShaped document.toJson ↔ WellShaped document.root.toJson := by
  have language : ∀ {rest},
      AllShaped (("$schema", .string Document.draft) :: rest) ↔ AllShaped rest := by
    simp [AllShaped, KeywordShaped]
  have nonNullable : ∀ names, AllShaped [("x-non-nullable", Json.strings names)] := by
    simp [AllShaped, KeywordShaped]
  have types : ∀ types : Entries String,
      AllShaped [("x-types", Json.record (types.mapValues .string))] := by
    simp [AllShaped, KeywordShaped]
  rw [Document.toJson, WellShaped, Schema.toJson, WellShaped]
  simp [allShaped_append, allShaped_optional, language, nonNullable, types]

/-- The schema of a model is in shape, and its choices have branches, exactly if the last
overrides offer choices. Records cannot be checked otherwise, or if an identifier is at
fault. -/
theorem schema_wellShaped_iff (keyed : KeyedAttributes)
    (compiled : compile modelName keyed.attributes = .ok rules) (extensions : Bool) :
    (WellShaped (rules.schema extensions).toJson ↔ OverridesOfferChoices keyed.attributes) ∧
    (CommandLine.schemaFailure? rules.modelName (rules.schema extensions) = none ↔
      identifierFault? documentBase (rules.schema extensions).toJson = none ∧
        OverridesOfferChoices keyed.attributes) := by
  have follows := followsLast_of_compile compiled
  constructor
  · rw [wellShaped_document_iff]
    exact follows.shaped_root_iff (fun regular => regular.wellShaped_iff) extensions
  · rw [← follows.shaped_root_iff (fun _ => Schema.choicesInhabited_iff) extensions]
    unfold CommandLine.schemaFailure?
    split
    · next fault faulty => simp [faulty]
    · next identified =>
        rw [identified]
        by_cases inhabited : (rules.schema extensions).root.choicesInhabited
        · simp [inhabited]
        · simp [inhabited]

/-- A field that is given an alternative only by its second attribute. -/
def answered : List (String × Attribute) := [
  ("pick", { type := some (.named "string"), override := some (.alternatives []) }),
  ("pick", { type := some (.named "string"), override := some (.alternatives [.any]) })]

theorem schema_wellShaped_iff_answered :
    ∃ rules, compile "Choice" answered = .ok rules ∧
      (∀ entry ∈ answered, ∀ override ∈ entry.2.override, override.KeysDistinct) ∧
      WellShaped (rules.schema true).toJson ∧
      CommandLine.schemaFailure? rules.modelName (rules.schema true) = none := by
  obtain ⟨rules, compiled⟩ : ∃ rules, compile "Choice" answered = .ok rules := ⟨_, rfl⟩
  have anyLeaf : Validator.any.Leaf := ⟨rfl, rfl, nofun⟩
  have distinct : ∀ entry ∈ answered, ∀ override ∈ entry.2.override, override.KeysDistinct := by
    have emptyDistinct : (Validator.alternatives []).KeysDistinct :=
      Validator.keysDistinct_alternatives nofun
    have anyDistinct : (Validator.alternatives [.any]).KeysDistinct :=
      Validator.keysDistinct_alternatives (by simp [anyLeaf.keysDistinct])
    simp [answered, emptyDistinct, anyDistinct]
  have offers : OverridesOfferChoices answered := by
    intro key attr isLast override overrides
    obtain rfl : override = .alternatives [.any] := by
      by_cases picked : key = "pick"
      · subst picked
        cases isLast
        cases overrides
        rfl
      · simp [answered, Entries.last?, Entries.get?, picked] at isLast
    exact Validator.offersChoices_alternatives_iff.mpr (by simp [anyLeaf.offersChoices])
  obtain ⟨shaped, checkable⟩ := schema_wellShaped_iff ⟨answered, distinct⟩ compiled true
  refine ⟨rules, compiled, distinct, shaped.mpr offers, checkable.mpr ⟨?_, offers⟩⟩
  cases compiled
  rfl

def unanswerable : List (String × Attribute) :=
  [("pick", { type := some (.named "string"), override := some (.alternatives []) })]

theorem unanswerable_refused :
    ∃ rules, compile "Choice" unanswerable = .ok rules ∧
      ¬ WellShaped (rules.schema true).toJson ∧
      CommandLine.schemaFailure? rules.modelName (rules.schema true) =
        some (.emptyChoice "Choice") := by
  obtain ⟨rules, compiled⟩ : ∃ rules, compile "Choice" unanswerable = .ok rules := ⟨_, rfl⟩
  refine ⟨rules, compiled, ?_, ?_⟩
  · intro shaped
    have distinct : ∀ entry ∈ unanswerable, ∀ override ∈ entry.2.override,
        override.KeysDistinct := by
      have emptyDistinct : (Validator.alternatives []).KeysDistinct :=
        Validator.keysDistinct_alternatives nofun
      simp [unanswerable, emptyDistinct]
    have follows : FollowsLast "Choice" (KeyedAttributes.mk unanswerable distinct).attributes rules :=
      followsLast_of_compile compiled
    have offers : OverridesOfferChoices unanswerable :=
      (follows.shaped_root_iff (fun regular => regular.wellShaped_iff) true).mp
        ((wellShaped_document_iff _).mp shaped)
    exact (Validator.offersChoices_alternatives_iff.mp (offers "pick" _ rfl _ rfl)).1 rfl
  · cases compiled
    rfl

end ModelRules

end FieldRules

namespace FieldRules.ModelRules

open Draft7

/-! The schema of a model accepts a record if the fields, each by itself, accept its members. -/

/-- A record whose members are fields of the model, with values that the schemas of their
validators accept. Fields may be absent. -/
def Fits (engine : Engine) (extensions : Bool) (rules : ModelRules) (record : Json) : Prop :=
  ∃ members, record = .object members ∧ ∀ member ∈ members, ∃ validator,
    rules.validator? member.1 = some validator ∧
      engine.satisfies (validator.schema extensions).toJson member.2 = true

variable {modelName : String} {attributes : List (String × Attribute)} {rules : ModelRules}

theorem obeys_root_iff {engine : Engine} {follows : Schema → Json → Bool} {extensions : Bool}
    {record : Json} :
    engine.obeys follows (rules.schema extensions).root record = true ↔
      ∃ members, record = .object members ∧ ∀ member ∈ members, ∃ validator,
        rules.validator? member.1 = some validator ∧
          follows (validator.schema extensions) member.2 = true := by
  have expected : ∀ member : String × Json,
      (Entries.get? (rules.validators.mapValues (Validator.schema extensions)) member.1).any
          (follows · member.2) = true ↔
        ∃ validator, rules.validator? member.1 = some validator ∧
          follows (validator.schema extensions) member.2 = true := by
    intro member
    rw [Entries.get?_mapValues, validator?]
    cases rules.validators.get? member.1 with
    | none => simp
    | some validator => simp
  cases record with
  | object members =>
      simp only [Engine.obeys, schema, Engine.membersFollow, Json.members, JsonType.accepts,
        Option.all_some, Option.all_none, List.isEmpty_cons, List.any_cons, Bool.and_true,
        Bool.true_or, Bool.or_true, List.all_eq_true, expected, Json.object.injEq, exists_eq_left']
  | _ => simp [Engine.obeys, schema, JsonType.accepts]

/-- The document of the whole model accepts exactly the records that fit, and the others have
issues. -/
theorem FollowsLast.accepts_iff_fits {keyed : KeyedAttributes}
    (follows : FollowsLast modelName keyed.attributes rules) (whole single : Bool)
    (record : Json) :
    (rules.schema whole).root.accepts record = true ↔ rules.Fits .draft7 single record := by
  have each : ∀ key validator value, rules.validator? key = some validator →
      (validator.schema whole).accepts value =
        Engine.draft7.satisfies (validator.schema single).toJson value := by
    intro key validator value found
    have keysDistinct := follows.overrides_iff.1 _ (Entries.mem_of_get? found)
    have accepts : (validator.schema whole).accepts value = validator.admits .draft7 value :=
      Validator.Keyed.accepts_schema ⟨validator, keysDistinct⟩
    have satisfies : Engine.draft7.satisfies (validator.schema single).toJson value =
        validator.admits .draft7 value :=
      Validator.Keyed.satisfies_schema .draft7 ⟨validator, keysDistinct⟩
    exact accepts.trans satisfies.symm
  rw [(follows.root_regular whole).accepts_eq, obeys_root_iff, Fits]
  refine exists_congr fun members => and_congr_right fun _ => forall₂_congr fun member _ =>
    exists_congr fun validator => and_congr_right fun found => ?_
  rw [each _ _ _ found]

end FieldRules.ModelRules
