import FieldRules.ModelRules
import FieldRules.Proofs.Entries
import FieldRules.Proofs.Except
import Mathlib.Data.List.Dedup
import Mathlib.Data.List.Pairwise

namespace FieldRules

/-! Attributes are compiled in one pass, in which a key may come more than once. The
rules always are those of the last attribute of each key, at the place of its first. -/

namespace Attribute

theorem compile_ok {attr : Attribute} {modelName key : String} {validator : Validator}
    {type : TypeEntry} (compiled : attr.compile modelName key = .ok (validator, type)) :
    ∃ ref resolved standard,
      attr.typeRef = some ref ∧ ref.resolve = .ok resolved ∧
      attr.standard? resolved = some standard ∧
      validator = attr.annotate key (attr.override.getD standard) ∧
      type = .ofName resolved.name := by
  unfold compile at compiled
  cases typed : attr.typeRef with
  | none => simp [typed] at compiled
  | some ref =>
      cases resolution : ref.resolve with
      | error reason => simp [typed, resolution] at compiled
      | ok resolved =>
          cases standard : attr.standard? resolved with
          | none => simp [typed, resolution, standard] at compiled
          | some validator =>
              simp only [typed, resolution, standard, Option.map_some, Except.ok.injEq,
                Prod.mk.injEq] at compiled
              exact ⟨ref, resolved, validator, rfl, resolution, standard, compiled.1.symm,
                compiled.2.symm⟩

theorem isNullable_eq_false_iff {attr : Attribute} :
    attr.isNullable = false ↔ attr.allowNull = some false := by
  simp [isNullable]

end Attribute

namespace ModelRules

/-- Adding a field is compiling its attribute and putting the results in their places. -/
theorem add_ok_iff {rules next : ModelRules} {key : String} {attr : Attribute} :
    rules.add key attr = .ok next ↔
      ∃ validator type, attr.compile rules.modelName key = .ok (validator, type) ∧
        next = {
          rules with
          validators := rules.validators.put key validator
          types := rules.types.put key type
          nonNullable :=
            if attr.isNullable then rules.nonNullable.filter (· != key)
            else rules.nonNullable.filter (· != key) ++ [key] } := by
  unfold add
  cases compiled : attr.compile rules.modelName key with
  | error cause => simp
  | ok field =>
      obtain ⟨validator, type⟩ := field
      constructor
      · intro added
        refine ⟨validator, type, rfl, ?_⟩
        simpa using added.symm
      · rintro ⟨_, _, equal, rfl⟩
        cases equal
        rfl

/-- The rules of a list of attributes: per key those of its last attribute. -/
structure FollowsLast (modelName : String) (attributes : List (String × Attribute))
    (rules : ModelRules) : Prop where
  modelName_eq : rules.modelName = modelName
  validator_names : rules.validators.names = (Entries.names attributes).eraseDups
  type_names : rules.types.names = (Entries.names attributes).eraseDups
  field : ∀ key attr, Entries.last? attributes key = some attr →
    ∃ validator type, attr.compile modelName key = .ok (validator, type) ∧
      rules.validators.get? key = some validator ∧ rules.types.get? key = some type
  nonNullable_nodup : rules.nonNullable.Nodup
  mem_nonNullable : ∀ key, key ∈ rules.nonNullable ↔
    ∃ attr, Entries.last? attributes key = some attr ∧ attr.allowNull = some false

namespace FollowsLast

theorem ofEmpty (modelName : String) : FollowsLast modelName [] (empty modelName) where
  modelName_eq := rfl
  validator_names := rfl
  type_names := rfl
  field := by simp [Entries.last?]
  nonNullable_nodup := List.nodup_nil
  mem_nonNullable := by simp [empty, Entries.last?]

private theorem names_put_eraseDups {entries : Entries α} {names : List String}
    (sameNames : entries.names = names.eraseDups) (key : String) (value : α) :
    (entries.put key value).names = (names ++ [key]).eraseDups := by
  rw [Entries.names_put, List.eraseDups_append, sameNames]
  by_cases known : key ∈ names
  · simp [known, List.mem_eraseDups, List.cons_removeAll]
  · simp [known, List.mem_eraseDups, List.cons_removeAll, List.eraseDups_cons]

theorem add {modelName key : String} {attr : Attribute}
    {done : List (String × Attribute)} {rules next : ModelRules}
    (follows : FollowsLast modelName done rules) (added : rules.add key attr = .ok next) :
    FollowsLast modelName (done ++ [(key, attr)]) next := by
  obtain ⟨validator, type, compiled, rfl⟩ := add_ok_iff.mp added
  rw [follows.modelName_eq] at compiled
  have others : (rules.nonNullable.filter (· != key)).Nodup := follows.nonNullable_nodup.filter _
  constructor
  case modelName_eq => exact follows.modelName_eq
  case validator_names =>
    simpa [Entries.names] using names_put_eraseDups follows.validator_names key validator
  case type_names =>
    simpa [Entries.names] using names_put_eraseDups follows.type_names key type
  case field =>
    intro other last isLast
    by_cases equal : other = key
    · subst equal
      obtain rfl : attr = last := by simpa using isLast
      exact ⟨validator, type, compiled, by simp [Entries.get?_put], by simp [Entries.get?_put]⟩
    · simpa [Entries.get?_put, equal] using follows.field other last (by simpa [equal] using isLast)
  case nonNullable_nodup =>
    by_cases nullable : attr.isNullable
    · simpa [nullable] using others
    · simp only [nullable, Bool.false_eq_true, if_false]
      exact others.append (List.nodup_singleton key) (by simp)
  case mem_nonNullable =>
    intro other
    have kept : other ∈ rules.nonNullable.filter (· != key) ↔
        other ≠ key ∧ other ∈ rules.nonNullable := by simp [and_comm]
    by_cases equal : other = key
    · subst equal
      cases nullable : attr.isNullable with
      | true => simp [← Attribute.isNullable_eq_false_iff, nullable]
      | false => simp [← Attribute.isNullable_eq_false_iff, nullable]
    · cases attr.isNullable with
      | true => simp [equal, follows.mem_nonNullable]
      | false => simp [equal, follows.mem_nonNullable]

theorem foldlM {modelName : String} {done more : List (String × Attribute)}
    {rules final : ModelRules} (follows : FollowsLast modelName done rules)
    (compiled : more.foldlM (fun rules entry => rules.add entry.1 entry.2) rules = .ok final) :
    FollowsLast modelName (done ++ more) final := by
  induction more generalizing done rules with
  | nil =>
      obtain rfl : rules = final := by simpa using compiled
      simpa using follows
  | cons entry rest ih =>
      obtain ⟨key, attr⟩ := entry
      cases added : rules.add key attr with
      | error cause => simp [List.foldlM_cons, added] at compiled
      | ok next =>
          have remaining : rest.foldlM (fun rules entry => rules.add entry.1 entry.2) next =
              .ok final := by
            simpa [List.foldlM_cons, added] using compiled
          simpa using ih (follows.add added) remaining

end FollowsLast

theorem followsLast_of_compile {modelName : String} {attributes : List (String × Attribute)}
    {rules : ModelRules} (compiled : compile modelName attributes = .ok rules) :
    FollowsLast modelName attributes rules :=
  (FollowsLast.ofEmpty modelName).foldlM compiled

/-- The rules depend on nothing but the order of the keys and their last attributes. -/
theorem FollowsLast.unique {modelName : String} {attributes others : List (String × Attribute)}
    {rules otherRules : ModelRules} (follows : FollowsLast modelName attributes rules)
    (otherFollows : FollowsLast modelName others otherRules)
    (sameNames : (Entries.names attributes).eraseDups = (Entries.names others).eraseDups)
    (sameLast : ∀ key, Entries.last? attributes key = Entries.last? others key) :
    rules.validators = otherRules.validators ∧ rules.types = otherRules.types := by
  have distinct : (Entries.names attributes).eraseDups.Nodup :=
    Entries.names_ofList attributes ▸ Entries.distinct_ofList attributes
  have agree : ∀ key,
      rules.validators.get? key = otherRules.validators.get? key ∧
        rules.types.get? key = otherRules.types.get? key := by
    intro key
    cases isLast : Entries.last? attributes key with
    | none =>
        have absent : key ∉ (Entries.names attributes).eraseDups := by
          simpa [List.mem_eraseDups] using Entries.last?_eq_none_iff.mp isLast
        have otherAbsent := sameNames ▸ absent
        simp [Entries.get?_eq_none_iff.mpr, follows.validator_names, follows.type_names,
          otherFollows.validator_names, otherFollows.type_names, absent, otherAbsent]
    | some attr =>
        obtain ⟨validator, type, compiled, hasValidator, hasType⟩ := follows.field key attr isLast
        obtain ⟨validatorB, typeB, compiledB, hasValidatorB, hasTypeB⟩ :=
          otherFollows.field key attr (sameLast key ▸ isLast)
        obtain ⟨rfl, rfl⟩ : validator = validatorB ∧ type = typeB := by
          simpa [compiled] using compiledB
        exact ⟨hasValidator.trans hasValidatorB.symm, hasType.trans hasTypeB.symm⟩
  constructor
  · apply Entries.Distinct.ext (by rw [Entries.Distinct, follows.validator_names]; exact distinct)
    · rw [follows.validator_names, otherFollows.validator_names, sameNames]
    · exact fun key => (agree key).1
  · apply Entries.Distinct.ext (by rw [Entries.Distinct, follows.type_names]; exact distinct)
    · rw [follows.type_names, otherFollows.type_names, sameNames]
    · exact fun key => (agree key).2

theorem foldlM_add_ok {attributes : List (String × Attribute)} {rules : ModelRules}
    (compiles : ∀ entry ∈ attributes,
      ∃ field, entry.2.compile rules.modelName entry.1 = .ok field) :
    ∃ final,
      attributes.foldlM (fun rules entry => rules.add entry.1 entry.2) rules = .ok final := by
  induction attributes generalizing rules with
  | nil => exact ⟨rules, rfl⟩
  | cons entry rest ih =>
      obtain ⟨⟨validator, type⟩, compiled⟩ := compiles entry (by simp)
      obtain ⟨next, added, sameName⟩ : ∃ next, rules.add entry.1 entry.2 = .ok next ∧
          next.modelName = rules.modelName :=
        ⟨_, add_ok_iff.mpr ⟨validator, type, compiled, rfl⟩, rfl⟩
      have restCompiles : ∀ other ∈ rest,
          ∃ field, other.2.compile next.modelName other.1 = .ok field := fun other member =>
        sameName ▸ compiles other (List.mem_cons_of_mem _ member)
      obtain ⟨final, remaining⟩ := ih restCompiles
      exact ⟨final, by
        simpa [List.foldlM_cons, added] using remaining⟩

/-- Collecting the attributes by key first gives the same validators and types. -/
theorem FollowsLast.collected {modelName : String} {attributes : List (String × Attribute)}
    {rules : ModelRules} (follows : FollowsLast modelName attributes rules) :
    ∃ collected, compile modelName (Entries.ofList attributes) = .ok collected ∧
      collected.validators = rules.validators ∧ collected.types = rules.types := by
  have distinct := Entries.distinct_ofList attributes
  obtain ⟨collected, compiled⟩ : ∃ collected,
      compile modelName (Entries.ofList attributes) = .ok collected := by
    apply foldlM_add_ok
    rintro ⟨key, attr⟩ member
    obtain ⟨validator, type, compiled, _⟩ :=
      follows.field key attr (Entries.mem_ofList_iff.mp member)
    exact ⟨_, compiled⟩
  refine ⟨collected, compiled, (followsLast_of_compile compiled).unique follows ?_ ?_⟩
  · rw [Entries.eraseDups_of_nodup distinct, Entries.names_ofList]
  · intro key
    rw [distinct.last?_eq, Entries.get?_ofList]

/-- Fields stand in the order in which their keys first came, and each is compiled from
the last attribute of its key. The non-nullable keys are those whose last attribute rules
null out. -/
theorem compile_keeps_last {modelName : String} {attributes : List (String × Attribute)}
    {rules : ModelRules} (compiled : compile modelName attributes = .ok rules) :
    rules.validators.names = (Entries.names attributes).eraseDups ∧
    rules.types.names = (Entries.names attributes).eraseDups ∧
    (∀ key attr, Entries.last? attributes key = some attr →
      ∃ validator type ref resolved,
        attr.compile modelName key = .ok (validator, type) ∧
        rules.validator? key = some validator ∧ rules.type? key = some type ∧
        attr.typeRef = some ref ∧ ref.resolve = .ok resolved ∧
        type.declared = resolved.name ∧ type.query = resolved.name) ∧
    rules.nonNullable.Nodup ∧
    (∀ key, rules.isNonNullable key = true ↔
      ∃ attr, Entries.last? attributes key = some attr ∧ attr.allowNull = some false) ∧
    ∃ collected, compile modelName (Entries.ofList attributes) = .ok collected ∧
      collected.validators = rules.validators ∧ collected.types = rules.types := by
  have follows := followsLast_of_compile compiled
  refine ⟨follows.validator_names, follows.type_names, ?_, follows.nonNullable_nodup, ?_,
    follows.collected⟩
  · intro key attr isLast
    obtain ⟨validator, type, field, hasValidator, hasType⟩ := follows.field key attr isLast
    obtain ⟨ref, resolved, _, typed, resolution, _, _, rfl⟩ := Attribute.compile_ok field
    exact ⟨validator, _, ref, resolved, field, hasValidator, hasType, typed, resolution, rfl, rfl⟩
  · intro key
    rw [isNonNullable, List.contains_iff_mem]
    exact follows.mem_nonNullable key

/-- A key that turns from non-nullable to nullable and back, between two others. -/
def turningBack : List (String × Attribute) := [
  ("id", { type := some (.named "integer"), allowNull := some false }),
  ("name", { type := some (.named "string"), allowNull := some false }),
  ("id", { type := some (.named "uuid") }),
  ("name", { type := some (.named "text") }),
  ("id", { type := some (.deferred (.named "uuid")), allowNull := some false })]

theorem compile_keeps_last_turningBack :
    ∃ rules, compile "Model" turningBack = .ok rules ∧
      rules.fields = ["id", "name"] ∧ rules.nonNullable.Nodup ∧
      rules.isNonNullable "id" = true ∧ rules.isNonNullable "name" = false := by
  obtain ⟨rules, compiled⟩ : ∃ rules, compile "Model" turningBack = .ok rules := ⟨_, rfl⟩
  obtain ⟨fields, _, _, distinct, nonNullable, _⟩ := compile_keeps_last compiled
  refine ⟨rules, compiled, fields, distinct, (nonNullable "id").mpr ⟨_, rfl, rfl⟩, ?_⟩
  rw [Bool.eq_false_iff, ne_eq, nonNullable]
  rintro ⟨attr, isLast, ruledOut⟩
  cases isLast
  cases ruledOut

end ModelRules

/-! Fields stand in the order in which their keys first came, non-nullable keys in the order
in which they last came. The two agree unless a key comes again around another one. -/

namespace Entries

variable {names : List String}

/-- The one name comes before the first place of the other and again after its last. -/
def Encloses (names : List String) (outer inner : String) : Prop :=
  names.idxOf outer < names.idxOf inner ∧
    names.reverse.idxOf outer < names.reverse.idxOf inner

theorem dedup_concat (names : List String) (name : String) :
    (names ++ [name]).dedup = names.dedup.filter (· != name) ++ [name] := by
  induction names with
  | nil => rfl
  | cons other rest ih =>
      by_cases again : other ∈ rest
      · have still : other ∈ rest ++ [name] := List.mem_append_left _ again
        rw [List.cons_append, List.dedup_cons_of_mem still, List.dedup_cons_of_mem again, ih]
      · by_cases equal : other = name
        · have still : other ∈ rest ++ [name] := by simp [equal]
          rw [List.cons_append, List.dedup_cons_of_mem still, ih,
            List.dedup_cons_of_notMem again]
          simp [equal]
        · have absent : other ∉ rest ++ [name] := by simp [again, equal]
          rw [List.cons_append, List.dedup_cons_of_notMem absent, ih,
            List.dedup_cons_of_notMem again]
          simp [equal]

theorem eraseDups_eq_dedup (names : List String) :
    names.eraseDups = names.reverse.dedup.reverse := by
  induction names using List.reverseRecOn with
  | nil => rfl
  | append_singleton names name ih =>
      rw [List.eraseDups_append, ih, List.reverse_append, List.reverse_singleton,
        List.singleton_append, List.dedup_cons]
      by_cases known : name ∈ names
      · simp [known, List.cons_removeAll]
      · simp [known, List.cons_removeAll, List.eraseDups_cons]

theorem dedup_ordered (names : List String) :
    names.dedup.Pairwise fun earlier later =>
      names.reverse.idxOf later < names.reverse.idxOf earlier := by
  induction names with
  | nil => exact .nil
  | cons name rest ih =>
      have present : ∀ {other}, other ∈ rest.dedup → other ∈ rest.reverse :=
        fun member => List.mem_reverse.mpr (List.mem_dedup.mp member)
      have kept : rest.dedup.Pairwise fun earlier later =>
          (name :: rest).reverse.idxOf later < (name :: rest).reverse.idxOf earlier := by
        refine ih.imp_of_mem fun isEarlier isLater before => ?_
        rwa [List.reverse_cons, List.idxOf_append_of_mem (present isLater),
          List.idxOf_append_of_mem (present isEarlier)]
      by_cases again : name ∈ rest
      · rwa [List.dedup_cons_of_mem again]
      · rw [List.dedup_cons_of_notMem again, List.pairwise_cons]
        refine ⟨fun later isLater => ?_, kept⟩
        have absent : name ∉ rest.reverse := fun member => again (List.mem_reverse.mp member)
        rw [List.reverse_cons, List.idxOf_append_of_mem (present isLater),
          List.idxOf_append_of_notMem absent]
        exact Nat.lt_add_right _ (List.idxOf_lt_length_of_mem (present isLater))

theorem eraseDups_ordered (names : List String) :
    names.eraseDups.Pairwise fun earlier later => names.idxOf earlier < names.idxOf later := by
  rw [eraseDups_eq_dedup, List.pairwise_reverse]
  simpa using dedup_ordered names.reverse

theorem dedup_perm_eraseDups (names : List String) : names.dedup.Perm names.eraseDups := by
  have distinct : names.eraseDups.Nodup := by
    rw [eraseDups_eq_dedup, List.nodup_reverse]
    exact List.nodup_dedup _
  rw [List.perm_ext_iff_of_nodup (List.nodup_dedup names) distinct]
  simp [List.mem_eraseDups]

theorem last_before_of_first_before {earlier later : String} (present : later ∈ names)
    (before : names.idxOf earlier < names.idxOf later) (apart : ¬ Encloses names earlier later) :
    names.reverse.idxOf later < names.reverse.idxOf earlier := by
  have differ : names.reverse.idxOf later ≠ names.reverse.idxOf earlier := by
    rw [ne_eq, List.idxOf_inj (List.mem_reverse.mpr present)]
    rintro rfl
    exact Nat.lt_irrefl _ before
  have notAround : ¬ names.reverse.idxOf earlier < names.reverse.idxOf later :=
    fun around => apart ⟨before, around⟩
  omega

/-- Where no name encloses another one, the order of the last places is that of the first. -/
theorem filter_dedup_eq_iff (kept : String → Bool) :
    names.dedup.filter kept = names.eraseDups.filter kept ↔
      ∀ outer ∈ names, ∀ inner ∈ names, kept outer = true → kept inner = true →
        ¬ Encloses names outer inner := by
  have byLast := (dedup_ordered names).filter kept
  have byFirst := (eraseDups_ordered names).filter kept
  have member : ∀ {name}, name ∈ names.eraseDups.filter kept ↔ name ∈ names ∧ kept name = true :=
    List.mem_filter.trans (and_congr_left' List.mem_eraseDups)
  constructor
  · intro equal outer isOuter inner isInner keepOuter keepInner
    rw [equal] at byLast
    have apart : (names.eraseDups.filter kept).Pairwise fun first second =>
        ¬ Encloses names first second :=
      byLast.imp fun before (encloses : Encloses ..) => Nat.lt_asymm before encloses.2
    have apartBack : (names.eraseDups.filter kept).Pairwise fun first second =>
        ¬ Encloses names second first :=
      byFirst.imp fun before (encloses : Encloses ..) => Nat.lt_asymm before encloses.1
    exact apart.forall_of_forall_of_flip (fun _ _ self => Nat.lt_irrefl _ self.1) apartBack
      (member.mpr ⟨isOuter, keepOuter⟩) (member.mpr ⟨isInner, keepInner⟩)
  · intro apart
    have alsoByLast : (names.eraseDups.filter kept).Pairwise fun earlier later =>
        names.reverse.idxOf later < names.reverse.idxOf earlier := by
      refine byFirst.imp_of_mem fun {earlier later} isEarlier isLater before => ?_
      obtain ⟨earlierPresent, keepEarlier⟩ := member.mp isEarlier
      obtain ⟨laterPresent, keepLater⟩ := member.mp isLater
      exact last_before_of_first_before laterPresent before
        (apart earlier earlierPresent later laterPresent keepEarlier keepLater)
    exact ((dedup_perm_eraseDups names).filter kept).eq_of_pairwise
      (fun _ _ _ _ before after => absurd after (Nat.lt_asymm before)) byLast alsoByLast

end Entries

namespace ModelRules

theorem compile_concat_ok_iff {modelName key : String} {attr : Attribute}
    {done : List (String × Attribute)} {final : ModelRules} :
    compile modelName (done ++ [(key, attr)]) = .ok final ↔
      ∃ rules, compile modelName done = .ok rules ∧ rules.add key attr = .ok final := by
  unfold compile
  rw [List.foldlM_append]
  cases done.foldlM (fun rules entry => rules.add entry.1 entry.2) (empty modelName) with
  | error cause => simp
  | ok rules => simp

/-- A key's place among the non-nullable ones is the last one. -/
theorem nonNullable_add {rules next : ModelRules} {key : String} {attr : Attribute}
    (added : rules.add key attr = .ok next) :
    next.nonNullable =
      rules.nonNullable.filter (· != key) ++ if attr.isNullable then [] else [key] := by
  obtain ⟨_, _, _, rfl⟩ := add_ok_iff.mp added
  cases attr.isNullable with
  | false => simp
  | true => simp

theorem nonNullable_eq_dedup {modelName : String} {attributes : List (String × Attribute)}
    {rules : ModelRules} (compiled : compile modelName attributes = .ok rules) :
    rules.nonNullable = (Entries.names attributes).dedup.filter rules.isNonNullable := by
  induction attributes using List.reverseRecOn generalizing rules with
  | nil =>
      cases compiled
      rfl
  | append_singleton done entry ih =>
      obtain ⟨key, attr⟩ := entry
      obtain ⟨before, compiledBefore, added⟩ := compile_concat_ok_iff.mp compiled
      have placed := nonNullable_add added
      have others : ∀ other, other ≠ key →
          rules.isNonNullable other = before.isNonNullable other := by
        intro other differ
        rw [isNonNullable, placed, Bool.eq_iff_iff]
        cases attr.isNullable with
        | false => simp [isNonNullable, differ]
        | true => simp [isNonNullable, differ]
      have itself : rules.isNonNullable key = !attr.isNullable := by
        rw [isNonNullable, placed, Bool.eq_iff_iff]
        cases attr.isNullable with
        | false => simp
        | true => simp
      have names : Entries.names (done ++ [(key, attr)]) = Entries.names done ++ [key] := by
        simp [Entries.names]
      have kept : before.nonNullable.filter (· != key) =
          ((Entries.names done).dedup.filter (· != key)).filter rules.isNonNullable := by
        rw [ih compiledBefore, List.filter_filter, List.filter_filter]
        refine List.filter_congr fun other _ => ?_
        by_cases same : other = key
        · simp [same]
        · simp [same, others, Bool.and_comm]
      rw [placed, names, Entries.dedup_concat, List.filter_append, kept]
      cases nullable : attr.isNullable with
      | false => simp [itself, nullable]
      | true => simp [itself, nullable]

/-- The non-nullable keys are in order of their last places, and so in the order of the fields
exactly if none of them comes again around another one. -/
theorem nonNullable_eq_fields_iff {modelName : String} {attributes : List (String × Attribute)}
    {rules : ModelRules} (compiled : compile modelName attributes = .ok rules) :
    rules.nonNullable = (Entries.names attributes).dedup.filter rules.isNonNullable ∧
    rules.nonNullable.Perm (rules.fields.filter rules.isNonNullable) ∧
    (rules.nonNullable = rules.fields.filter rules.isNonNullable ↔
      ∀ outer inner, rules.isNonNullable outer = true → rules.isNonNullable inner = true →
        ¬ Entries.Encloses (Entries.names attributes) outer inner) := by
  have byLast := nonNullable_eq_dedup compiled
  have fields : rules.fields = (Entries.names attributes).eraseDups :=
    (followsLast_of_compile compiled).validator_names
  have given : ∀ key, rules.isNonNullable key = true → key ∈ Entries.names attributes := by
    intro key ruledOut
    rw [isNonNullable, List.contains_iff_mem, byLast] at ruledOut
    exact List.mem_dedup.mp (List.mem_filter.mp ruledOut).1
  refine ⟨byLast, ?_, ?_⟩
  · rw [byLast, fields]
    exact (Entries.dedup_perm_eraseDups _).filter _
  · rw [byLast, fields, Entries.filter_dedup_eq_iff]
    constructor
    · intro apart outer inner outerRuledOut innerRuledOut
      exact apart outer (given outer outerRuledOut) inner (given inner innerRuledOut)
        outerRuledOut innerRuledOut
    · intro apart outer _ inner _ outerRuledOut innerRuledOut
      exact apart outer inner outerRuledOut innerRuledOut

def whole : Attribute := { type := some (.named "integer"), allowNull := some false }

def inTurn : List (String × Attribute) :=
  [("a", whole), ("b", whole), ("a", whole), ("b", whole)]

theorem nonNullable_eq_fields_iff_inTurn :
    ∃ rules, compile "Order" inTurn = .ok rules ∧
      rules.nonNullable = rules.fields.filter rules.isNonNullable := by
  obtain ⟨rules, compiled, keys⟩ : ∃ rules, compile "Order" inTurn = .ok rules ∧
      rules.nonNullable = ["a", "b"] := ⟨_, rfl, rfl⟩
  refine ⟨rules, compiled, (nonNullable_eq_fields_iff compiled).2.2.mpr ?_⟩
  intro outer inner isOuter isInner
  have known : ∀ key, rules.isNonNullable key = true → key = "a" ∨ key = "b" := by
    simp [isNonNullable, keys]
  rcases known outer isOuter with rfl | rfl
  · rcases known inner isInner with rfl | rfl
    · simp [Entries.Encloses, inTurn]
    · simp [Entries.Encloses, inTurn]
  · rcases known inner isInner with rfl | rfl
    · simp [Entries.Encloses, inTurn]
    · simp [Entries.Encloses, inTurn]

/-- A key that comes again after another one keeps its place among the fields, not its place
among the non-nullable keys. -/
theorem comingAgain_reordered :
    ∃ rules, compile "Order" [("a", whole), ("b", whole), ("a", whole)] = .ok rules ∧
      rules.nonNullable ≠ rules.fields.filter rules.isNonNullable :=
  ⟨_, rfl, by decide⟩

end ModelRules

end FieldRules
