import FieldRules.Proofs.Except
import FieldRules.Proofs.Json.Outline
import FieldRules.Validator.Json

namespace FieldRules

open Json Reading

/-! Reading back what was written: a layout takes in the members of an object one by one,
so members that may be absent can be considered each on its own. -/

namespace Reading.Layout

variable {layout : Layout σ} {scope : Scope}

/-- Reads one member into a value; a name that the layout does not have changes nothing. -/
def take (layout : Layout σ) (scope : Scope) (value : σ) (member : String × Json) :
    Except ReadError σ :=
  match layout.find? member.1 with
  | none => .ok value
  | some reader => reader.read scope (Outline.ofJson member.2) value

def takeAll (layout : Layout σ) (scope : Scope) (value : σ) (members : List (String × Json)) :
    Except ReadError σ :=
  members.foldlM (layout.take scope) value

theorem takeAll_append {value middle : σ} {first second : List (String × Json)}
    (taken : layout.takeAll scope value first = .ok middle) :
    layout.takeAll scope value (first ++ second) = layout.takeAll scope middle second := by
  rw [takeAll, List.foldlM_append, ← takeAll, taken]
  rfl

theorem takeAll_cons {value middle : σ} {member : String × Json}
    {rest : List (String × Json)} (taken : layout.take scope value member = .ok middle) :
    layout.takeAll scope value (member :: rest) = layout.takeAll scope middle rest := by
  rw [takeAll, List.foldlM_cons, taken]
  rfl

theorem exists_of_takeAll_cons {value after : σ} {member : String × Json}
    {rest : List (String × Json)}
    (taken : layout.takeAll scope value (member :: rest) = .ok after) :
    ∃ middle, layout.take scope value member = .ok middle ∧
      layout.takeAll scope middle rest = .ok after := by
  rw [takeAll, List.foldlM_cons] at taken
  cases step : layout.take scope value member with
  | error cause =>
      rw [step] at taken
      cases taken
  | ok middle =>
      rw [step] at taken
      exact ⟨middle, rfl, taken⟩

theorem takeAll_optional {name : String} {encode : α → Json} {option : Option α}
    (set : Option α → σ)
    (present : ∀ part, option = some part →
      layout.take scope (set none) (name, encode part) = .ok (set (some part))) :
    layout.takeAll scope (set none) (Json.optional name encode option) = .ok (set option) := by
  cases option with
  | none => rfl
  | some part =>
      rw [Json.optional, takeAll_cons (present part rfl)]
      rfl

theorem takeAll_nonempty {name : String} {encode : List α → Json} {parts : List α}
    (set : List α → σ)
    (present : layout.take scope (set []) (name, encode parts) = .ok (set parts)) :
    layout.takeAll scope (set []) (Json.nonempty name encode parts) = .ok (set parts) := by
  cases parts with
  | nil => rfl
  | cons part rest =>
      rw [Json.nonempty, takeAll_cons present]
      · rfl
      · simp

/-- A strict layout allows no members but its own. -/
def Allows (layout : Layout σ) (members : List (String × Json)) : Prop :=
  layout.strict = false ∨ ∀ name ∈ Entries.names members, (layout.find? name).isSome

theorem readMembers_ofJson {members : List (String × Json)} {seen : List String}
    {value after : σ} (allowed : layout.Allows members)
    (distinct : Entries.Distinct members) (fresh : ∀ name ∈ Entries.names members, name ∉ seen)
    (taken : layout.takeAll scope value members = .ok after) :
    ∃ seenAfter,
      layout.readMembers scope seen value (Outline.membersOfJson members) =
        .ok (seenAfter, after) ∧
      seen ⊆ seenAfter ∧
      ∀ name ∈ Entries.names members, (layout.find? name).isSome → name ∈ seenAfter := by
  induction members generalizing seen value with
  | nil =>
      cases taken
      exact ⟨seen, rfl, fun _ member => member, by simp [Entries.names]⟩
  | cons member rest ih =>
      obtain ⟨name, part⟩ := member
      obtain ⟨absent, distinctRest⟩ := List.nodup_cons.mp distinct
      have freshRest : ∀ other ∈ Entries.names rest, other ∉ seen :=
        fun other member => fresh other (List.mem_cons_of_mem _ member)
      have allowedRest : layout.Allows rest :=
        allowed.imp_right fun known other member => known other (List.mem_cons_of_mem _ member)
      rw [Outline.membersOfJson, readMembers]
      cases found : layout.find? name with
      | none =>
          rw [takeAll_cons (show layout.take scope value (name, part) = .ok value by
            simp [take, found])] at taken
          have lenient : layout.strict = false := by
            refine allowed.resolve_right fun known => ?_
            simpa [found] using known name List.mem_cons_self
          obtain ⟨seenAfter, read, grown, known⟩ := ih allowedRest distinctRest freshRest taken
          refine ⟨seenAfter, ?_, grown, ?_⟩
          · simp [lenient, Outline.skipFault?_ofJson, read]
          · intro other member isKnown
            rcases List.mem_cons.mp member with rfl | member
            · simp [found] at isKnown
            · exact known other member isKnown
      | some reader =>
          have unseen : name ∉ seen := fresh name List.mem_cons_self
          have step : layout.take scope value (name, part) =
              reader.read scope (Outline.ofJson part) value := by
            simp [take, found]
          obtain ⟨middle, first, others⟩ := exists_of_takeAll_cons taken
          have freshSeen : ∀ other ∈ Entries.names rest, other ∉ name :: seen := by
            intro other member
            rw [List.mem_cons, not_or]
            exact ⟨fun equal => absent (equal ▸ member), freshRest other member⟩
          obtain ⟨seenAfter, read, grown, known⟩ := ih allowedRest distinctRest freshSeen others
          refine ⟨seenAfter, ?_, fun other member => grown (List.mem_cons_of_mem _ member), ?_⟩
          · simp only [List.contains_eq_mem, unseen, decide_false, ← step, first]
            exact read
          · intro other member isKnown
            rcases List.mem_cons.mp member with rfl | member
            · exact grown List.mem_cons_self
            · exact known other member isKnown

theorem readObject_of_allowed {members : List (String × Json)} (allowed : layout.Allows members)
    (distinct : Entries.Distinct members)
    (complete : ∀ member ∈ layout.members, member.required →
      member.name ∈ Entries.names members)
    {after : σ} (taken : layout.takeAll scope layout.blank members = .ok after) :
    layout.readObject scope (Outline.membersOfJson members) = .ok after := by
  obtain ⟨seen, read, _, known⟩ :=
    readMembers_ofJson allowed distinct (fun _ _ => List.not_mem_nil) taken
  have missing : (layout.members.find? fun member =>
      member.required && !seen.contains member.name) = none := by
    rw [List.find?_eq_none]
    intro member inLayout
    have found : (layout.find? member.name).isSome :=
      List.find?_isSome.mpr ⟨member, inLayout, beq_self_eq_true _⟩
    cases required : member.required with
    | false => simp
    | true => simpa using known member.name (complete member inLayout required) found
  simp only [readObject, read, ok_bind, missing]
  rfl

theorem readObject_ofJson (lenient : layout.strict = false) {members : List (String × Json)}
    (distinct : Entries.Distinct members)
    (complete : ∀ member ∈ layout.members, member.required →
      member.name ∈ Entries.names members)
    {after : σ} (taken : layout.takeAll scope layout.blank members = .ok after) :
    layout.readObject scope (Outline.membersOfJson members) = .ok after :=
  readObject_of_allowed (Or.inl lenient) distinct complete taken

end Reading.Layout

namespace Json.Outline

/-! Values are read back from their outlines. -/

private theorem mapM_ok {read : α → Except ε β} {result : α → β} {items : List α}
    (each : ∀ item ∈ items, read item = .ok (result item)) :
    items.mapM read = .ok (items.map result) := by
  induction items with
  | nil => rfl
  | cons item rest ih =>
      rw [List.mapM_cons, each item List.mem_cons_self,
        ih fun other member => each other (List.mem_cons_of_mem _ member)]
      rfl

private theorem readNatBelow_whole {bound value : Nat} {expected : String}
    (below : value < bound) (fits : -0x8000000000000000 ≤ (value : Int) ∧
      (value : Int) < 0x10000000000000000) :
    readNatBelow bound expected (.number (.whole value fits)) = .ok value := by
  have holds : (0 : Int) ≤ value ∧ (value : Int) < bound := by omega
  rw [readNatBelow, if_pos holds, Int.toNat_natCast]

theorem readUInt64_ofJson (value : UInt64) :
    (ofJson (Json.ofUInt64 value)).readUInt64 = .ok value := by
  rw [Json.ofUInt64, Number.ofUInt64, ofJson, readUInt64, readNatBelow_whole value.toNat_lt]
  simp

theorem readUInt32_ofJson (value : UInt32) :
    (ofJson (Json.ofUInt32 value)).readUInt32 = .ok value := by
  rw [Json.ofUInt32, Number.ofUInt32, ofJson, readUInt32, readNatBelow_whole value.toNat_lt]
  simp

theorem readList_ofJson {room : Nat} {checked : Bool} {encode : α → Json} {result : α → β}
    {reader : Scope → Outline → Except ReadError β} {items : List α}
    (each : ∀ item ∈ items, reader ⟨room, checked⟩ (ofJson (encode item)) = .ok (result item)) :
    readList ⟨room + 1, checked⟩ reader (ofJson (.array (items.map encode))) =
      .ok (items.map result) := by
  simp only [ofJson, itemsOfJson_eq, readList, enter, List.map_map, List.mapM_map]
  exact mapM_ok each

theorem readOption_ofJson {reader : Outline → Except ReadError α} {value : Json} {result : α}
    (nonNull : value ≠ .null) (read : reader (ofJson value) = .ok result) :
    readOption reader (ofJson value) = .ok (some result) := by
  have outlined : ofJson value ≠ .null := by
    cases value with
    | null => exact absurd rfl nonNull
    | _ => exact nofun
  unfold readOption
  split
  · contradiction
  · rw [read]
    rfl

theorem readStrings_ofJson {room : Nat} {checked : Bool} (texts : List String) :
    readStrings ⟨room + 1, checked⟩ (ofJson (Json.strings texts)) = .ok texts := by
  have read := @readList_ofJson String String room checked Json.string id (fun _ => readString)
    texts fun _ _ => rfl
  rwa [List.map_id] at read

theorem check_ofJson {scope : Scope} {value : Json} (deep : value.depth ≤ scope.room) :
    check scope (ofJson value) = .ok () := by
  rw [check, fault?_ofJson value deep]

theorem readValue_eq {scope : Scope} {value : Json} (deep : value.depth ≤ scope.room) :
    readValue scope (ofJson value) = .ok value.sorted := by
  rw [readValue, check_ofJson deep, toJson_ofJson]
  rfl

theorem readValue_ofJson {scope : Scope} {value : Json} (deep : value.depth ≤ scope.room)
    (sorted : value.sorted = value) : readValue scope (ofJson value) = .ok value := by
  rw [readValue_eq deep, sorted]

theorem readValues_ofJson {room : Nat} {checked : Bool} {values : List Json}
    (deep : itemsDepth values ≤ room) (sorted : ∀ value ∈ values, value.sorted = value) :
    readValues ⟨room + 1, checked⟩ (ofJson (.array values)) = .ok values := by
  have each : ∀ value ∈ values, readValue ⟨room, checked⟩ (ofJson (id value)) = .ok (id value) :=
    fun value member => readValue_ofJson (itemsDepth_le_iff.mp deep value member)
      (sorted value member)
  have read := readList_ofJson each
  rwa [List.map_id] at read

theorem readEntries_of_forall₂ {room : Nat} {checked : Bool}
    {reader : Scope → Outline → Except ReadError β} {members : List (String × Json)}
    {results : List (String × β)}
    (each : List.Forall₂ (fun member result => member.1 = result.1 ∧
      reader ⟨room, checked⟩ (ofJson member.2) = .ok result.2) members results) :
    readEntries ⟨room + 1, checked⟩ reader (ofJson (.object members)) =
      .ok (Entries.ofList results) := by
  have pairs : (membersOfJson members).mapM (fun member => do
      let name ← readName member.1
      return (name, ← reader ⟨room, checked⟩ member.2)) =
        (.ok results : Except ReadError (List (String × β))) := by
    induction each with
    | nil => rfl
    | @cons member result rest others read _ ih =>
        obtain ⟨name, value⟩ := member
        obtain ⟨rfl, read⟩ := read
        rw [membersOfJson, List.mapM_cons, ih]
        simp only [readName, read]
        rfl
  simp only [ofJson, readEntries, enter, pairs]
  rfl

theorem readEntries_ofJson {room : Nat} {checked : Bool} {encode : α → Json} {result : α → β}
    {reader : Scope → Outline → Except ReadError β} {entries : Entries α}
    (distinct : entries.Distinct)
    (each : ∀ entry ∈ entries,
      reader ⟨room, checked⟩ (ofJson (encode entry.2)) = .ok (result entry.2)) :
    readEntries ⟨room + 1, checked⟩ reader (ofJson (.object (entries.mapValues encode))) =
      .ok (entries.mapValues result) := by
  have paired : List.Forall₂ (fun member result => member.1 = result.1 ∧
      reader ⟨room, checked⟩ (ofJson member.2) = .ok result.2)
      (entries.mapValues encode) (entries.mapValues result) := by
    rw [Entries.mapValues, Entries.mapValues, List.forall₂_map_left_iff,
      List.forall₂_map_right_iff, List.forall₂_same]
    exact fun entry member => ⟨rfl, each entry member⟩
  have distinctResults : Entries.Distinct (entries.mapValues result) := by
    simpa [Entries.Distinct] using distinct
  rw [readEntries_of_forall₂ paired, distinctResults.ofList_eq]

end Json.Outline

end FieldRules

namespace FieldRules

open Json Reading

/-! A document may give the members of a value in any order, and may leave out those that
are as in a blank value. -/

namespace Json

/-- What stands for an option: null if it is not set. -/
def ofOption (encode : α → Json) (option : Option α) : Json := (option.map encode).getD .null

/-- Members that say what a full list of members says, without some that are blank. -/
structure Spells (full blank members : List (String × Json)) : Prop where
  distinct : Entries.Distinct members
  sound : ∀ member ∈ members, member ∈ full
  complete : ∀ member ∈ full, member ∈ members ∨ member ∈ blank

variable {full blank members : List (String × Json)}

theorem Spells.blank_of_absent {name : String} {value : Json} (spells : Spells full blank members)
    (absent : name ∉ Entries.names members) (given : (name, value) ∈ full) :
    (name, value) ∈ blank :=
  (spells.complete _ given).resolve_left fun member => absent (List.mem_map_of_mem member)

/-- An option without a member is not set, if its blank member is null. -/
theorem Spells.option_eq (spells : Spells full blank members) (name : String)
    (encode : α → Json) (option : Option α) (given : (name, ofOption encode option) ∈ full)
    (nonNull : ∀ part ∈ option, encode part ≠ .null)
    (isBlank : ∀ value, (name, value) ∈ blank → value = .null) :
    (if name ∈ Entries.names members then option else none) = option := by
  split
  · rfl
  next absent =>
    have isNull := isBlank _ (spells.blank_of_absent absent given)
    cases option with
    | none => rfl
    | some part => exact absurd isNull (nonNull part rfl)

theorem Spells.flag_eq (spells : Spells full blank members) (name : String) (flag : Bool)
    (given : (name, .bool flag) ∈ full)
    (isBlank : ∀ value, (name, value) ∈ blank → value = .bool false) :
    (if name ∈ Entries.names members then flag else false) = flag := by
  split
  · rfl
  next absent =>
    have isFalse := isBlank _ (spells.blank_of_absent absent given)
    cases flag with
    | false => rfl
    | true => cases isFalse

end Json

namespace Reading.Layout

variable {layout : Layout σ} {scope : Scope} {only : List String → σ}

/-- Where every member sets what its name stands for, all of them do, in any order. -/
theorem takeAll_only {members : List (String × Json)}
    (each : ∀ member ∈ members, ∀ seen,
      layout.take scope (only seen) member = .ok (only (seen ++ [member.1])))
    (seen : List String) :
    layout.takeAll scope (only seen) members = .ok (only (seen ++ Entries.names members)) := by
  induction members generalizing seen with
  | nil => simp [takeAll, Entries.names]
  | cons member rest ih =>
      rw [takeAll_cons (each member List.mem_cons_self seen),
        ih (fun other inRest => each other (List.mem_cons_of_mem _ inRest))]
      simp [Entries.names]

theorem read_spelled {room : Nat} {checked : Bool} {full blank members : List (String × Json)}
    (spells : Spells full blank members)
    (known : ∀ member ∈ full, (layout.find? member.1).isSome)
    (required : ∀ member ∈ layout.members, member.required →
      member.name ∈ Entries.names members)
    (start : layout.blank = only [])
    (each : ∀ member ∈ members, ∀ seen, layout.take ⟨room, checked⟩ (only seen) member =
      .ok (only (seen ++ [member.1]))) :
    layout.read ⟨room + 1, checked⟩ (Outline.ofJson (.object members)) =
      .ok (only (Entries.names members)) := by
  have allowed : layout.Allows members := by
    refine Or.inr fun name member => ?_
    obtain ⟨given, inMembers, rfl⟩ := List.mem_map.mp member
    exact known given (spells.sound given inMembers)
  refine readObject_of_allowed allowed spells.distinct required ?_
  rw [start, takeAll_only each, List.nil_append]

end Reading.Layout

namespace Json.Outline

theorem readOption_ofOption {reader : Outline → Except ReadError α} {encode : α → Json}
    {option : Option α}
    (read : ∀ part ∈ option, encode part ≠ .null ∧ reader (ofJson (encode part)) = .ok part) :
    readOption reader (ofJson (ofOption encode option)) = .ok option := by
  cases option with
  | none => rfl
  | some part => exact readOption_ofJson (read part rfl).1 (read part rfl).2

theorem readOption_bool (flag : Option Bool) :
    readOption readBool (ofJson (ofOption .bool flag)) = .ok flag :=
  readOption_ofOption fun _ _ => ⟨nofun, rfl⟩

theorem readOption_string (text : Option String) :
    readOption readString (ofJson (ofOption .string text)) = .ok text :=
  readOption_ofOption fun _ _ => ⟨nofun, rfl⟩

theorem readOption_uint32 (value : Option UInt32) :
    readOption readUInt32 (ofJson (ofOption Json.ofUInt32 value)) = .ok value :=
  readOption_ofOption fun part _ => ⟨nofun, readUInt32_ofJson part⟩

theorem readOption_uint64 (value : Option UInt64) :
    readOption readUInt64 (ofJson (ofOption Json.ofUInt64 value)) = .ok value :=
  readOption_ofOption fun part _ => ⟨nofun, readUInt64_ofJson part⟩

theorem readOption_strings {texts : Option (List String)} {room : Nat} {checked : Bool}
    (deep : (ofOption Json.strings texts).depth ≤ room) :
    readOption (fun o => o.readStrings ⟨room, checked⟩)
      (ofJson (ofOption Json.strings texts)) = .ok texts := by
  refine readOption_ofOption fun part given => ⟨nofun, ?_⟩
  subst given
  cases room with
  | zero => cases deep
  | succ room => exact readStrings_ofJson part

end Json.Outline

end FieldRules
