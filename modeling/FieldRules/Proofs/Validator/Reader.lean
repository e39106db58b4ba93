import FieldRules.Proofs.Reading.Acceptance
import FieldRules.Proofs.Validator.RoundTrip

namespace FieldRules

open Json Reading

/-! A validator in canonical form has distinct keys and sorted values, and no default of it is
null. It is read back as it is. -/

namespace Json

theorem membersDepth_append_le {first second : List (String × Json)} {room : Nat}
    (firstDeep : membersDepth first ≤ room) (secondDeep : membersDepth second ≤ room) :
    membersDepth (first ++ second) ≤ room := by
  rw [membersDepth_le_iff] at *
  exact List.forall_mem_append.mpr ⟨firstDeep, secondDeep⟩

theorem membersDepth_optional_le {name : String} {encode : α → Json} {option : Option α}
    {room : Nat} (deep : ∀ part ∈ option, (encode part).depth ≤ room) :
    membersDepth (optional name encode option) ≤ room := by
  cases option with
  | none => exact Nat.zero_le _
  | some part => exact Nat.max_le.mpr ⟨deep part rfl, Nat.zero_le _⟩

theorem membersDepth_nonempty_le {name : String} {encode : List α → Json} {parts : List α}
    {room : Nat} (deep : (encode parts).depth ≤ room) :
    membersDepth (nonempty name encode parts) ≤ room := by
  cases parts with
  | nil => exact Nat.zero_le _
  | cons => exact Nat.max_le.mpr ⟨deep, Nat.zero_le _⟩

theorem depth_strings (texts : List String) : (strings texts).depth = 1 := by
  have flat : itemsDepth (texts.map string) ≤ 0 := by
    rw [itemsDepth_le_iff]
    intro item member
    obtain ⟨text, _, rfl⟩ := List.mem_map.mp member
    exact Nat.le_refl 0
  rw [strings, depth, Nat.le_zero.mp flat]

end Json

namespace Validator

structure Canonical (validator : Validator) : Prop where
  keyNames : validator.rule.keyNames.Nodup
  sorted : validator.Sorted
  default : validator.default ≠ some .null

def CanonicalThroughout : Validator → Prop := Everywhere Canonical

theorem Everywhere.imp {holds implied : Validator → Prop}
    (implies : ∀ validator, holds validator → implied validator) {validator : Validator}
    (everywhere : Everywhere holds validator) : Everywhere implied validator := by
  induction everywhere with
  | intro here _ ih => exact .intro (implies _ here) ih

theorem CanonicalThroughout.keysDistinct {validator : Validator}
    (canonical : validator.CanonicalThroughout) : validator.KeysDistinct :=
  Everywhere.imp (fun _ here => here.keyNames) canonical

theorem CanonicalThroughout.valuesSorted {validator : Validator}
    (canonical : validator.CanonicalThroughout) : validator.ValuesSorted :=
  Everywhere.imp (fun _ here => here.sorted) canonical

theorem CanonicalThroughout.readBack_eq {validator : Validator}
    (canonical : validator.CanonicalThroughout) : validator.readBack = validator := by
  induction canonical with
  | @intro validator here _ ih =>
      have rule : ruleReadBack validator.rule = validator.rule := by
        cases parts : validator.rule with
        | object keys =>
            have each : ∀ key ∈ keys, (key.1, key.2.readBack) = key := by
              intro key member
              rw [ih key.2 (by simpa [inner, parts, Rule.inner] using ⟨key.1, member⟩)]
            rw [ruleReadBack, keysReadBack_eq, Entries.mapValues, List.map_congr_left each,
              List.map_id']
        | alternatives options =>
            have each : ∀ option ∈ options, option.readBack = option := by
              intro option member
              exact ih option (by simpa [inner, parts, Rule.inner] using member)
            rw [ruleReadBack, optionsReadBack_eq, List.map_congr_left each, List.map_id']
        | any | array | boolean | number | string | date => rfl
      have default : Json.nonNull validator.default = validator.default := by
        cases given : validator.default with
        | none => rfl
        | some value =>
            cases value with
            | null => exact absurd given here.default
            | _ => rfl
      obtain ⟨_, allow, valid, description, notes, _, label⟩ := validator
      rw [readBack, rule, default]

/-- A validator in canonical form is read back as it is. -/
theorem CanonicalThroughout.read_toJson {validator : Validator}
    (canonical : validator.CanonicalThroughout) {scope : Scope}
    (deep : validator.toJson.depth ≤ scope.room) :
    read scope (Outline.ofJson validator.toJson) = .ok validator := by
  have back := Keyed.readWithin_toJson ⟨validator, canonical.keysDistinct⟩
    canonical.valuesSorted deep scope.checked
  rw [read, back, canonical.readBack_eq]

theorem Fits.depth_le {validator : Validator} {room : Nat} (fits : validator.Fits room) :
    validator.toJson.depth ≤ room + 2 := by
  have text : ∀ {text : String}, (Json.string text).depth ≤ room + 1 := Nat.zero_le _
  have rule : membersDepth [("rule", ruleToJson validator.rule)] ≤ room + 1 := by
    simpa [membersDepth, ruleToJson, depth] using fits.rule
  have allow : (Json.array validator.allow).depth ≤ room + 1 := Nat.succ_le_succ fits.allow
  have valid : ∀ values ∈ validator.valid, (Json.array values).depth ≤ room + 1 :=
    fun values given => Nat.succ_le_succ (fits.valid values given)
  have notes : (Json.strings validator.notes).depth ≤ room + 1 := by
    rw [depth_strings]
    exact Nat.succ_le_succ (Nat.zero_le room)
  rw [toJson_eq, depth, members]
  refine Nat.succ_le_succ ?_
  refine membersDepth_append_le ?_ (membersDepth_optional_le fun _ _ => text)
  refine membersDepth_append_le ?_ (membersDepth_optional_le fits.default)
  refine membersDepth_append_le ?_ (membersDepth_nonempty_le notes)
  refine membersDepth_append_le ?_ (membersDepth_optional_le fun _ _ => text)
  refine membersDepth_append_le ?_ (membersDepth_optional_le valid)
  exact membersDepth_append_le rule (membersDepth_nonempty_le allow)

/-- A validator in canonical form whose rule has its parts within some levels. -/
structure CanonicalIn (room : Nat) (validator : Validator) : Prop where
  canonical : validator.Canonical
  fits : validator.Fits room
  parts : ∀ part ∈ validator.inner, part.CanonicalThroughout

theorem CanonicalIn.throughout {room : Nat} {validator : Validator}
    (canonical : validator.CanonicalIn room) : validator.CanonicalThroughout :=
  .intro canonical.canonical canonical.parts

theorem CanonicalThroughout.canonicalIn {room : Nat} {validator : Validator}
    (canonical : validator.CanonicalThroughout) (deep : validator.toJson.depth ≤ room + 2) :
    validator.CanonicalIn room := by
  obtain ⟨inside, isRoom, fits⟩ := exists_fits deep
  obtain rfl : room = inside := by omega
  exact ⟨canonical.here, fits, fun part member => canonical.within member⟩

end Validator

/-! Every validator that was read is in canonical form. Its document may be one level deeper
than the text that it was read from, since an object's keys are always written. -/

namespace Rule

open Validator

variable {inner : Outline → Except ReadError Validator} {room : Nat} {rule : Rule Validator}

/-- A rule with distinct keys and canonical validators, whose parts lie within some levels. -/
structure CanonicalIn (room : Nat) (rule : Rule Validator) : Prop where
  keyNames : rule.keyNames.Nodup
  deep : membersDepth (ruleMembers rule) ≤ room
  parts : ∀ part ∈ rule.inner, part.CanonicalThroughout

theorem canonicalIn_of_plain (plain : membersDepth (ruleMembers rule) = 0) :
    rule.CanonicalIn room := by
  cases rule with
  | object keys => simp [ruleMembers, membersDepth, depth] at plain
  | alternatives options => simp [ruleMembers, membersDepth, depth] at plain
  | any | array | boolean | number | string | date =>
      refine ⟨List.nodup_nil, ?_, fun _ none => absurd none List.not_mem_nil⟩
      rw [plain]
      exact Nat.zero_le room

theorem canonicalIn_object {keys : Entries Validator} (distinct : keys.Distinct)
    (each : ∀ key ∈ keys, key.2.CanonicalThroughout ∧ key.2.toJson.depth ≤ room) :
    (Rule.object keys).CanonicalIn (room + 1) := by
  refine ⟨distinct, ?_, ?_⟩
  · have members : membersDepth (keysToJson keys) ≤ room := by
      rw [keysToJson_eq, membersDepth_le_iff]
      intro member inKeys
      obtain ⟨key, known, rfl⟩ := List.mem_map.mp inKeys
      exact (each key known).2
    exact Nat.max_le.mpr ⟨Nat.succ_le_succ members, Nat.zero_le _⟩
  · intro part member
    obtain ⟨key, known, rfl⟩ := List.mem_map.mp member
    exact (each key known).1

theorem canonicalIn_alternatives {options : List Validator}
    (each : ∀ option ∈ options, option.CanonicalThroughout ∧ option.toJson.depth ≤ room) :
    (Rule.alternatives options).CanonicalIn (room + 1) := by
  refine ⟨List.nodup_nil, ?_, fun option member => (each option member).1⟩
  have items : itemsDepth (optionsToJson options) ≤ room := by
    rw [optionsToJson_eq, itemsDepth_le_iff]
    intro item inOptions
    obtain ⟨option, member, rfl⟩ := List.mem_map.mp inOptions
    exact (each option member).2
  exact Nat.max_le.mpr ⟨Nat.succ_le_succ items, Nat.zero_le _⟩

theorem readParts_ok {kind : RuleKind} {scope : Scope}
    {read : {σ : Type} → Layout σ → Except ReadError σ}
    (reads : ∀ {σ : Type} {layout : Layout σ} {holds : σ → Prop} {value : σ},
      layout.Keeps scope holds → read layout = .ok value → holds value)
    (parts : ∀ {outline part}, inner outline = .ok part →
      part.CanonicalThroughout ∧ part.toJson.depth ≤ scope.room)
    (given : readParts inner kind read = .ok rule) : rule.CanonicalIn (scope.room + 1) := by
  have unit : ∀ {blank : Rule Validator}, membersDepth (ruleMembers blank) = 0 →
      read (unitLayout blank) = .ok rule → rule.CanonicalIn (scope.room + 1) := by
    intro blank plain taken
    have keeps : (unitLayout blank).Keeps scope (· = blank) := ⟨rfl, List.forall_mem_nil _⟩
    rw [reads keeps taken]
    exact canonicalIn_of_plain plain
  cases kind with
  | any => exact unit rfl given
  | array => exact unit rfl given
  | boolean => exact unit rfl given
  | number =>
      obtain ⟨⟨integer, precision⟩, _, rfl⟩ := map_eq_ok_iff.mp given
      refine canonicalIn_of_plain ?_
      cases precision with
      | none => rfl
      | some precision => rfl
  | string =>
      obtain ⟨⟨max, guid⟩, _, rfl⟩ := map_eq_ok_iff.mp given
      refine canonicalIn_of_plain ?_
      cases max with
      | none => rfl
      | some max => rfl
  | date =>
      obtain ⟨⟨iso, format⟩, _, rfl⟩ := map_eq_ok_iff.mp given
      refine canonicalIn_of_plain ?_
      cases format with
      | none => rfl
      | some format => rfl
  | object =>
      obtain ⟨keys, taken, rfl⟩ := map_eq_ok_iff.mp given
      have keeps : (objectLayout inner).Keeps scope fun keys => keys.Distinct ∧
          ∀ key ∈ keys, key.2.CanonicalThroughout ∧ key.2.toJson.depth ≤ scope.room := by
        refine ⟨⟨Entries.distinct_nil, List.forall_mem_nil _⟩, ?_⟩
        simp only [objectLayout, List.forall_mem_singleton]
        intro outline before after _ read
        obtain ⟨_, _, distinct, each⟩ := Outline.readEntries_ok read
        refine ⟨distinct, fun key member => ?_⟩
        obtain ⟨_, read⟩ := each key member
        exact parts read
      obtain ⟨distinct, each⟩ := reads keeps taken
      exact canonicalIn_object distinct each
  | alternatives =>
      obtain ⟨options, taken, rfl⟩ := map_eq_ok_iff.mp given
      have keeps : (alternativesLayout inner).Keeps scope fun options =>
          ∀ option ∈ options, option.CanonicalThroughout ∧ option.toJson.depth ≤ scope.room := by
        refine ⟨List.forall_mem_nil _, ?_⟩
        simp only [alternativesLayout, List.forall_mem_singleton]
        intro outline before after _ read option member
        obtain ⟨_, _, each⟩ := Outline.readList_ok read
        obtain ⟨_, read⟩ := each option member
        exact parts read
      exact canonicalIn_alternatives (reads keeps taken)

theorem read_ok {scope : Scope} {outline : Outline}
    (parts : ∀ {outline part}, inner outline = .ok part →
      part.CanonicalThroughout ∧ part.toJson.depth + 1 ≤ scope.room)
    (given : read inner scope outline = .ok rule) : rule.CanonicalIn scope.room := by
  have inside : ∀ {room}, scope.room = room + 1 → ∀ {outline part}, inner outline = .ok part →
      part.CanonicalThroughout ∧ part.toJson.depth ≤ room := by
    intro room isRoom outline part read
    obtain ⟨canonical, deep⟩ := parts read
    exact ⟨canonical, by omega⟩
  unfold Rule.read at given
  split at given
  · obtain ⟨room, isRoom, given⟩ := Outline.enter_ok given
    obtain ⟨found, _, given⟩ := bind_eq_ok_iff.mp given
    cases found with
    | none => cases given
    | some kind =>
        rw [isRoom]
        exact readParts_ok (fun keeps read => keeps.readObject read) (inside isRoom) given
  · obtain ⟨_, _, given⟩ := Outline.enter_ok given
    cases given
  · obtain ⟨room, isRoom, given⟩ := Outline.enter_ok given
    obtain ⟨kind, _, given⟩ := bind_eq_ok_iff.mp given
    obtain ⟨_, _, given⟩ := bind_eq_ok_iff.mp given
    rw [isRoom]
    exact readParts_ok (fun keeps read => keeps.readList read) (inside isRoom) given
  · cases given

end Rule

namespace Validator

variable {inner : Outline → Except ReadError Validator} {room : Nat}

theorem canonicalIn_any : any.CanonicalIn room where
  canonical := ⟨List.nodup_nil, ⟨nofun, nofun, nofun⟩, nofun⟩
  fits := ⟨Nat.zero_le _, Nat.zero_le _, nofun, nofun⟩
  parts := nofun

theorem keeps_canonicalIn {checked : Bool}
    (parts : ∀ {outline part}, inner outline = .ok part →
      part.CanonicalThroughout ∧ part.toJson.depth + 1 ≤ room) :
    (layout inner).Keeps ⟨room, checked⟩ (CanonicalIn room) := by
  refine ⟨canonicalIn_any, ?_⟩
  simp only [layout, List.forall_mem_cons]
  refine ⟨?rule, ?allow, ?valid, ?description, ?notes, ?default, ?label,
    List.forall_mem_nil _⟩
  case rule =>
    rintro outline before after ⟨⟨_, sorted, nonNull⟩, fits, _⟩ taken
    obtain ⟨value, given, rfl⟩ := bind_pure_eq_ok_iff.mp taken
    have rule := Rule.read_ok parts given
    exact ⟨⟨rule.keyNames, ⟨sorted.allow, sorted.valid, sorted.default⟩, nonNull⟩,
      ⟨rule.deep, fits.allow, fits.valid, fits.default⟩, rule.parts⟩
  case allow =>
    rintro outline before after ⟨⟨keyNames, sorted, nonNull⟩, fits, inside⟩ taken
    obtain ⟨value, given, rfl⟩ := bind_pure_eq_ok_iff.mp taken
    obtain ⟨rest, isRoom, deep, allowSorted⟩ := Outline.readValues_ok given
    obtain rfl : room = rest + 1 := isRoom
    exact ⟨⟨keyNames, ⟨allowSorted, sorted.valid, sorted.default⟩, nonNull⟩,
      ⟨fits.rule, Nat.le_succ_of_le deep, fits.valid, fits.default⟩, inside⟩
  case valid =>
    rintro outline before after ⟨⟨keyNames, sorted, nonNull⟩, fits, inside⟩ taken
    obtain ⟨value, given, rfl⟩ := bind_pure_eq_ok_iff.mp taken
    have each : ∀ values ∈ value,
        itemsDepth values ≤ room ∧ ∀ value ∈ values, value.sorted = value := by
      intro values member
      obtain ⟨rest, isRoom, deep, validSorted⟩ :=
        Outline.readValues_ok (Outline.readOption_ok given values member).2
      obtain rfl : room = rest + 1 := isRoom
      exact ⟨Nat.le_succ_of_le deep, validSorted⟩
    exact ⟨⟨keyNames, ⟨sorted.allow, fun values member => (each values member).2, sorted.default⟩,
        nonNull⟩,
      ⟨fits.rule, fits.allow, fun values member => (each values member).1, fits.default⟩, inside⟩
  case default =>
    rintro outline before after ⟨⟨keyNames, sorted, _⟩, fits, inside⟩ taken
    obtain ⟨value, given, rfl⟩ := bind_pure_eq_ok_iff.mp taken
    have each : ∀ default ∈ value, default.sorted = default ∧ default.depth ≤ room ∧
        default ≠ .null := by
      intro default member
      obtain ⟨present, read⟩ := Outline.readOption_ok given default member
      obtain ⟨defaultSorted, deep⟩ := Outline.readValue_ok read
      exact ⟨defaultSorted, deep, Outline.readValue_ne_null present read⟩
    exact ⟨⟨keyNames, ⟨sorted.allow, sorted.valid, fun default member => (each default member).1⟩,
        fun isNull => (each .null isNull).2.2 rfl⟩,
      ⟨fits.rule, fits.allow, fits.valid,
        fun default member => Nat.le_succ_of_le (each default member).2.1⟩, inside⟩
  case description | notes | label =>
    rintro outline before after ⟨⟨keyNames, sorted, nonNull⟩, fits, inside⟩ taken
    obtain ⟨value, -, rfl⟩ := bind_pure_eq_ok_iff.mp taken
    exact ⟨⟨keyNames, ⟨sorted.allow, sorted.valid, sorted.default⟩, nonNull⟩,
      ⟨fits.rule, fits.allow, fits.valid, fits.default⟩, inside⟩

theorem readWithin_ok {checked : Bool} {outline : Outline} {validator : Validator}
    (given : readWithin room checked outline = .ok validator) :
    validator.CanonicalThroughout ∧ validator.toJson.depth ≤ room + 1 := by
  induction room using Nat.strongRecOn generalizing checked outline validator with
  | ind room ih =>
      have parts : ∀ {outline part}, readInner room outline = .ok part →
          part.CanonicalThroughout ∧ part.toJson.depth + 2 ≤ room := by
        intro outline part read
        unfold readInner at read
        split at read
        · next rest =>
            obtain ⟨canonical, deep⟩ := ih rest (by omega) read
            exact ⟨canonical, by omega⟩
        · cases read
      rw [readWithin_eq] at given
      obtain ⟨inside, rfl⟩ : ∃ inside, room = inside + 1 := by
        cases room with
        | zero =>
            cases outline with
            | _ => cases given
        | succ inside => exact ⟨inside, rfl⟩
      have read : validator.CanonicalIn inside := by
        refine Layout.Keeps.read (fun {room} isRoom => ?_) given
        obtain rfl : inside = room := Nat.succ.inj isRoom
        exact keeps_canonicalIn fun read => ⟨(parts read).1, by have := (parts read).2; omega⟩
      exact ⟨read.throughout, read.fits.depth_le⟩

theorem read_ok {scope : Scope} {outline : Outline} {validator : Validator}
    (given : read scope outline = .ok validator) :
    validator.CanonicalThroughout ∧ validator.toJson.depth ≤ scope.room + 1 :=
  readWithin_ok given

end Validator

end FieldRules

namespace FieldRules

open Json Reading

/-! A validator is read alike wherever there is room for it, with the validators in its rule. -/

def Reading.Scope.ofChecked (scope : Scope) : Scope := { scope with checked := true }

namespace Rule

variable {scope other : Scope} {inner twin : Outline → Except ReadError Validator}

theorem readKind_congr (sameChecked : scope.checked = other.checked) (outline : Outline) :
    readKind scope outline = readKind other outline := by
  cases outline with
  | number number =>
      cases number with
      | whole value fits => simp [readKind, sameChecked]
      | double value => simp [readKind]
  | null | bool | string | list | object | flawed => rfl

theorem findKind_congr (sameChecked : scope.checked = other.checked)
    (wider : scope.room ≤ other.room) {members : List (String × Json)}
    (deep : membersDepth members ≤ scope.room) (found : Option RuleKind) :
    findKind scope found (Outline.membersOfJson members) =
      findKind other found (Outline.membersOfJson members) := by
  induction members generalizing found with
  | nil => rfl
  | cons member rest ih =>
      obtain ⟨name, part⟩ := member
      obtain ⟨deepHere, deepRest⟩ := Nat.max_le.mp deep
      simp only [Outline.membersOfJson, findKind, readKind_congr sameChecked, ih deepRest,
        Outline.check_ofJson deepHere, Outline.check_ofJson (Nat.le_trans deepHere wider)]

theorem checkAll_ofJson {items : List Json} (deep : itemsDepth items ≤ scope.room) :
    (Outline.itemsOfJson items).forM (fun item => item.check scope) = .ok () := by
  induction items with
  | nil => rfl
  | cons item rest ih =>
      obtain ⟨deepHere, deepRest⟩ := Nat.max_le.mp deep
      simp only [List.forM_eq_forM] at ih ⊢
      rw [Outline.itemsOfJson, List.forM_cons, Outline.check_ofJson deepHere]
      exact ih deepRest

/-- Only the validators within a rule may be read by different readers. -/
theorem readParts_same {kind : RuleKind} {read reread : {σ : Type} → Layout σ → Except ReadError σ}
    (wider : scope.room ≤ other.room)
    (same : ∀ value : Json, value.depth + 1 ≤ scope.room →
      SameResult (inner (Outline.ofJson value)) (twin (Outline.ofJson value)))
    (reads : ∀ {σ : Type} {first second : Layout σ}, first.Alike scope other second →
      SameResult (read first) (reread second)) :
    SameResult (readParts inner kind read) (readParts twin kind reread) := by
  have unit (rule : Rule Validator) :
      SameResult (read (unitLayout rule)) (reread (unitLayout rule)) :=
    reads (Layout.alike_of_free (List.forall_mem_nil _))
  cases kind with
  | any => exact unit .any
  | array => exact unit .array
  | boolean => exact unit .boolean
  | number => exact (reads (Layout.alike_of_free (by simp [numberLayout]))).map _
  | string => exact (reads (Layout.alike_of_free (by simp [stringLayout]))).map _
  | date => exact (reads (Layout.alike_of_free (by simp [dateLayout]))).map _
  | object =>
      have alike : (objectLayout inner).Alike scope other (objectLayout twin) :=
        ⟨rfl, rfl, .cons
          ⟨rfl, rfl, fun _ deep _ => Outline.readEntries_same deep wider same⟩ .nil⟩
      exact (reads alike).map _
  | alternatives =>
      have alike : (alternativesLayout inner).Alike scope other (alternativesLayout twin) :=
        ⟨rfl, rfl, .cons
          ⟨rfl, rfl, fun _ deep _ => Outline.readList_same deep wider same⟩ .nil⟩
      exact (reads alike).map _

theorem read_same (sameChecked : scope.checked = other.checked) {value : Json}
    (deep : value.depth ≤ scope.room) (wider : scope.room ≤ other.room)
    (same : ∀ part : Json, part.depth + 2 ≤ scope.room →
      SameResult (inner (Outline.ofJson part)) (twin (Outline.ofJson part))) :
    SameResult (read inner scope (Outline.ofJson value))
      (read twin other (Outline.ofJson value)) := by
  have insideChecked : scope.inside.checked = other.inside.checked := sameChecked
  have wide : scope.inside.room ≤ other.inside.room := Nat.sub_le_sub_right wider 1
  have wideChecked : scope.inside.ofChecked.room ≤ other.inside.ofChecked.room := wide
  have parts : ∀ part : Json, part.depth + 1 ≤ scope.inside.room →
      SameResult (inner (Outline.ofJson part)) (twin (Outline.ofJson part)) := by
    intro part lower
    have isInside : scope.inside.room = scope.room - 1 := rfl
    exact same part (by omega)
  cases value with
  | object members =>
      have lower : membersDepth members ≤ scope.inside.room := Nat.le_sub_one_of_lt deep
      simp only [Outline.ofJson, read, Outline.enter_of_lt deep,
        Outline.enter_of_lt (Nat.lt_of_lt_of_le deep wider), filter_isKind]
      rw [findKind_congr insideChecked wide lower]
      refine SameResult.bind (.refl _) fun found => ?_
      cases found with
      | none => exact .refl _
      | some kind =>
          refine readParts_same wideChecked parts fun alike => alike.readObject ?_
          exact membersDepth_le_iff.mpr fun member kept =>
            membersDepth_le_iff.mp lower member (List.mem_of_mem_filter kept)
  | array items =>
      cases items with
      | nil =>
          simp only [Outline.ofJson, Outline.itemsOfJson, read, Outline.enter_of_lt deep,
            Outline.enter_of_lt (Nat.lt_of_lt_of_le deep wider)]
          exact .refl _
      | cons first rest =>
          have lower : itemsDepth rest ≤ scope.inside.room :=
            (Nat.max_le.mp (Nat.le_sub_one_of_lt deep)).2
          simp only [Outline.ofJson, Outline.itemsOfJson, read, Outline.enter_of_lt deep,
            Outline.enter_of_lt (Nat.lt_of_lt_of_le deep wider), readKind_congr insideChecked,
            checkAll_ofJson lower, checkAll_ofJson (Nat.le_trans lower wide)]
          refine SameResult.bind (.refl _) fun kind => SameResult.bind (.refl _) fun _ => ?_
          exact readParts_same wideChecked parts fun alike => alike.readList lower
  | null | bool | number | string => exact .of_errors _ _

end Rule

namespace Validator

theorem layout_alike {inner twin : Outline → Except ReadError Validator} {scope other : Scope}
    (sameChecked : scope.checked = other.checked) (wider : scope.room ≤ other.room)
    (same : ∀ part : Json, part.depth + 2 ≤ scope.room →
      SameResult (inner (Outline.ofJson part)) (twin (Outline.ofJson part))) :
    (layout inner).Alike scope other (layout twin) := by
  refine ⟨rfl, rfl, ?_⟩
  simp only [layout, List.forall₂_cons, List.forall₂_nil_left_iff, and_true]
  refine ⟨⟨rfl, rfl, ?rule⟩, ⟨rfl, rfl, ?allow⟩, ⟨rfl, rfl, ?valid⟩, ⟨rfl, rfl, ?description⟩,
    ⟨rfl, rfl, ?notes⟩, ⟨rfl, rfl, ?default⟩, ⟨rfl, rfl, ?label⟩⟩
  case rule =>
    exact fun _ deep _ => (Rule.read_same sameChecked deep wider same).bind fun _ => .refl _
  case allow => exact fun _ deep _ => (Outline.readValues_same deep wider).bind fun _ => .refl _
  case valid =>
    exact fun _ deep _ =>
      (Outline.readOption_same (Outline.readValues_same deep wider)).bind fun _ => .refl _
  case notes => exact fun _ deep _ => (Outline.readStrings_same deep wider).bind fun _ => .refl _
  case default =>
    exact fun _ deep _ =>
      (Outline.readOption_same (Outline.readValue_same deep wider)).bind fun _ => .refl _
  case description | label => exact fun _ _ _ => .refl _

theorem read_eq (scope : Scope) (outline : Outline) :
    read scope outline = (layout (readInner scope.room)).read scope outline :=
  readWithin_eq scope.room scope.checked outline

/-- Room for more levels makes no difference to a validator. -/
theorem read_same {scope other : Scope} (sameChecked : scope.checked = other.checked)
    {value : Json} (deep : value.depth ≤ scope.room) (wider : scope.room ≤ other.room) :
    SameResult (read scope (Outline.ofJson value)) (read other (Outline.ofJson value)) := by
  induction isRoom : scope.room using Nat.strongRecOn generalizing scope other value with
  | ind room ih =>
      rw [read_eq, read_eq]
      have wide : scope.inside.room ≤ other.inside.room := Nat.sub_le_sub_right wider 1
      refine Layout.Alike.read (layout_alike sameChecked wide fun part lower => ?_) deep wider
      have isInside : scope.inside.room = scope.room - 1 := rfl
      obtain ⟨rest, least⟩ : ∃ rest, scope.room = rest + 3 := ⟨scope.room - 3, by omega⟩
      obtain ⟨others, most⟩ : ∃ others, other.room = others + 3 := ⟨other.room - 3, by omega⟩
      have smaller : rest < room := by omega
      have deepPart : part.depth ≤ rest := by omega
      have widerRest : rest ≤ others := by omega
      rw [least, most]
      exact @ih rest smaller ⟨rest, true⟩ ⟨others, true⟩ rfl part deepPart widerRest rfl

end Validator

end FieldRules
