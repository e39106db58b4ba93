import FieldRules.Proofs.Reading.Keeps
import FieldRules.Proofs.Reading.Layout

namespace FieldRules

open Json Reading

/-! Whether a value is taken by a reader depends on its form alone: for an object of named
members, on which members it has and on the form of each. -/

theorem exists_bind_ok_iff {f : α → β} {first : Except ε α} :
    (∃ result, (do return f (← first)) = Except.ok result) ↔ ∃ value, first = .ok value := by
  cases first with
  | error cause => simp
  | ok value => simp

namespace Json

def IsFlag (value : Json) : Prop := ∃ flag, value = .bool flag

def IsText (value : Json) : Prop := ∃ text, value = .string text

def IsTexts (value : Json) : Prop := ∃ items, value = .array items ∧ ∀ item ∈ items, item.IsText

/-- A number that is written as a whole one, within a range. -/
def IsWholeBelow (bound : Nat) (value : Json) : Prop :=
  ∃ number fits, value = .number (.whole number fits) ∧ 0 ≤ number ∧ number < bound

def OrNull (form : Json → Prop) (value : Json) : Prop := value = .null ∨ form value

end Json

namespace Reading

def Scope.inside (scope : Scope) : Scope := { scope with room := scope.room - 1 }

end Reading

namespace Json.Outline

def Accepts (read : Outline → Except ReadError α) (value : Json) : Prop :=
  ∃ result, read (ofJson value) = .ok result

variable {value : Json} {scope : Scope}

theorem enter_of_lt {room : Nat} (inside : room < scope.room)
    (reader : Scope → Except ReadError α) : enter scope reader = reader scope.inside := by
  obtain ⟨_ | room, checked⟩ := scope
  · exact absurd inside (Nat.not_lt_zero _)
  · rfl

theorem accepts_readOption_iff {read : Outline → Except ReadError α} :
    Accepts (readOption read) value ↔ OrNull (Accepts read) value := by
  cases value with
  | null => simp [Accepts, OrNull, ofJson, readOption]
  | _ => simp [Accepts, OrNull, ofJson, readOption, map_eq_ok_iff]

theorem accepts_readBool_iff : Accepts readBool value ↔ IsFlag value := by
  cases value with
  | bool flag => simp [Accepts, IsFlag, ofJson, readBool]
  | _ => simp [Accepts, IsFlag, ofJson, readBool]

theorem accepts_readString_iff : Accepts readString value ↔ IsText value := by
  cases value with
  | string text => simp [Accepts, IsText, ofJson, readString]
  | _ => simp [Accepts, IsText, ofJson, readString]

theorem accepts_readNatBelow_iff {bound : Nat} {expected : String} :
    Accepts (readNatBelow bound expected) value ↔ IsWholeBelow bound value := by
  cases value with
  | number number =>
      cases number with
      | whole number fits =>
          by_cases within : 0 ≤ number ∧ number < bound
          · simp [Accepts, IsWholeBelow, ofJson, readNatBelow, within, fits]
          · simp only [Accepts, IsWholeBelow, ofJson, readNatBelow, if_neg within]
            simpa using fun nonneg _ _ => not_lt.mp fun below => within ⟨nonneg, below⟩
      | double => simp [Accepts, IsWholeBelow, ofJson, readNatBelow]
  | null | bool | string | array | object =>
      simp [Accepts, IsWholeBelow, ofJson, readNatBelow]

theorem accepts_readUInt32_iff :
    Accepts readUInt32 value ↔ IsWholeBelow UInt32.size value := by
  rw [← @accepts_readNatBelow_iff _ _ "u32"]
  simp [Accepts, readUInt32, map_eq_ok_iff]

theorem accepts_readUInt64_iff :
    Accepts readUInt64 value ↔ IsWholeBelow UInt64.size value := by
  rw [← @accepts_readNatBelow_iff _ _ "usize"]
  simp [Accepts, readUInt64, map_eq_ok_iff]

theorem accepts_readList_iff {reader : Scope → Outline → Except ReadError α}
    (deep : value.depth ≤ scope.room) : Accepts (readList scope reader) value ↔
      ∃ items, value = .array items ∧ ∀ item ∈ items, Accepts (reader scope.inside) item := by
  cases value with
  | array items =>
      simp only [Accepts, ofJson, readList, itemsOfJson_eq, List.mapM_map, enter_of_lt deep,
        exists_mapM_ok_iff]
      simp
  | null | bool | number | string | object => simp [Accepts, ofJson, readList]

theorem accepts_readEntries_iff {reader : Scope → Outline → Except ReadError α}
    (deep : value.depth ≤ scope.room) : Accepts (readEntries scope reader) value ↔
      ∃ entries, value = .object entries ∧
        ∀ entry ∈ entries, Accepts (reader scope.inside) entry.2 := by
  cases value with
  | object entries =>
      simp only [Accepts, ofJson, readEntries, membersOfJson_eq, List.mapM_map, enter_of_lt deep,
        exists_bind_ok_iff, exists_mapM_ok_iff]
      simp only [Json.object.injEq, exists_eq_left']
      exact forall₂_congr fun entry _ => exists_bind_ok_iff
  | null | bool | number | string | array => simp [Accepts, ofJson, readEntries]

theorem accepts_readStrings_iff (deep : value.depth ≤ scope.room) :
    Accepts (readStrings scope) value ↔ IsTexts value := by
  simp only [readStrings, accepts_readList_iff deep, accepts_readString_iff, IsTexts]

theorem accepts_readValue (deep : value.depth ≤ scope.room) : Accepts (readValue scope) value :=
  ⟨_, readValue_eq deep⟩

end Json.Outline

namespace Reading.Layout

variable {layout : Layout σ} {scope : Scope} {value after : σ} {seen seenAfter : List String}
  {members : List (String × Json)}

/-- What a strict layout has taken in: none of its names twice, and no other name. -/
structure Taken (layout : Layout σ) (scope : Scope) (seen : List String) (value : σ)
    (members : List (String × Json)) (seenAfter : List String) (after : σ) : Prop where
  distinct : Entries.Distinct members
  fresh : ∀ name ∈ Entries.names members, name ∉ seen
  known : ∀ name ∈ Entries.names members, (layout.find? name).isSome
  seenOnly : ∀ name ∈ seenAfter, name ∈ seen ∨ name ∈ Entries.names members
  takeAll : layout.takeAll scope value members = .ok after

theorem Taken.cons {name : String} {part : Json} {reader : Member σ} {next : σ}
    {rest : List (String × Json)} (found : layout.find? name = some reader) (unseen : name ∉ seen)
    (read : reader.read scope (Outline.ofJson part) value = .ok next)
    (taken : layout.Taken scope (name :: seen) next rest seenAfter after) :
    layout.Taken scope seen value ((name, part) :: rest) seenAfter after where
  distinct := List.nodup_cons.mpr ⟨fun repeated => taken.fresh name repeated List.mem_cons_self,
    taken.distinct⟩
  fresh := List.forall_mem_cons.mpr ⟨unseen, fun other member seenBefore =>
    taken.fresh other member (List.mem_cons_of_mem _ seenBefore)⟩
  known := List.forall_mem_cons.mpr ⟨by rw [found]; rfl, taken.known⟩
  seenOnly other seenThen := by
    rcases taken.seenOnly other seenThen with before | inRest
    · rcases List.mem_cons.mp before with rfl | before
      · exact .inr List.mem_cons_self
      · exact .inl before
    · exact .inr (List.mem_cons_of_mem _ inRest)
  takeAll := by
    have step : layout.take scope value (name, part) = .ok next := by simp [take, found, read]
    rw [takeAll_cons step, taken.takeAll]

theorem taken_of_readMembers (strict : layout.strict)
    (read : layout.readMembers scope seen value (Outline.membersOfJson members) =
      .ok (seenAfter, after)) : layout.Taken scope seen value members seenAfter after := by
  induction members generalizing seen value with
  | nil =>
      cases read
      exact ⟨List.nodup_nil, nofun, nofun, fun _ before => .inl before, rfl⟩
  | cons member rest ih =>
      obtain ⟨name, part⟩ := member
      rw [Outline.membersOfJson, readMembers] at read
      cases found : layout.find? name with
      | none => simp [found, strict] at read
      | some reader =>
          simp only [found, List.contains_eq_mem] at read
          split at read
          · cases read
          · next unseen =>
              obtain ⟨next, taken, read⟩ := bind_eq_ok_iff.mp read
              exact (ih read).cons found (by simpa using unseen) taken

theorem readObject_ok_iff (strict : layout.strict) :
    layout.readObject scope (Outline.membersOfJson members) = .ok after ↔
      Entries.Distinct members ∧
      (∀ name ∈ Entries.names members, (layout.find? name).isSome) ∧
      (∀ member ∈ layout.members, member.required → member.name ∈ Entries.names members) ∧
      layout.takeAll scope layout.blank members = .ok after := by
  constructor
  · intro read
    obtain ⟨⟨seen, value⟩, taken, read⟩ := bind_eq_ok_iff.mp read
    have taken := taken_of_readMembers strict taken
    dsimp only at read
    split at read
    · cases read
    · next complete =>
        cases read
        refine ⟨taken.distinct, taken.known, fun member inLayout required => ?_, taken.takeAll⟩
        have seenThen := List.find?_eq_none.mp complete member inLayout
        simp only [required, List.contains_eq_mem, Bool.true_and, Bool.not_eq_true',
          decide_eq_false_iff_not, not_not] at seenThen
        exact (taken.seenOnly _ seenThen).resolve_left List.not_mem_nil
  · rintro ⟨distinct, known, complete, taken⟩
    exact readObject_of_allowed (.inr known) distinct complete taken

/-- The member has the name of the form, and reads the values of the form. -/
def Member.Reads (scope : Scope) (member : Member σ) (form : String × (Json → Prop)) : Prop :=
  member.name = form.1 ∧ ∀ value : Json, value.depth ≤ scope.room → ∀ before,
    (∃ after, member.read scope (Outline.ofJson value) before = .ok after) ↔ form.2 value

/-- A member that is set to what is read has the form of the values that are accepted. -/
theorem reads_of_accepts {read : Outline → Except ReadError α} {set : σ → α → σ}
    {form : Json → Prop}
    (accepts : ∀ value : Json, value.depth ≤ scope.room →
      (Outline.Accepts read value ↔ form value)) :
    ∀ value : Json, value.depth ≤ scope.room → ∀ before,
      (∃ after, (do return set before (← read (Outline.ofJson value))) = Except.ok after) ↔
        form value :=
  fun value deep _ => exists_bind_ok_iff.trans (accepts value deep)

theorem find?_reads {members : List (Member σ)} {forms : Entries (Json → Prop)}
    (each : List.Forall₂ (Member.Reads scope) members forms) (name : String) :
    Option.Rel (fun member form => Member.Reads scope member (name, form))
      (members.find? fun member => member.name == name) (forms.get? name) := by
  induction each with
  | nil => exact .none
  | @cons member form _ _ reads _ ih =>
      obtain ⟨formName, form⟩ := form
      obtain rfl : member.name = formName := reads.1
      by_cases here : member.name = name
      · subst here
        simpa [Entries.get?] using Option.Rel.some reads
      · simpa [here, Ne.symm here, Entries.get?] using ih

/-- Each member's reader takes its values whatever was read before, so an object is read if every
member has its form. -/
theorem exists_takeAll_iff {forms : Entries (Json → Prop)}
    (each : List.Forall₂ (Member.Reads scope) layout.members forms)
    (known : ∀ name ∈ Entries.names members, (layout.find? name).isSome)
    (deep : membersDepth members ≤ scope.room) :
    (∃ after, layout.takeAll scope value members = .ok after) ↔
      ∀ member ∈ members, ∃ form ∈ forms.get? member.1, form member.2 := by
  induction members generalizing value with
  | nil => simp [takeAll]
  | cons member rest ih =>
      obtain ⟨name, part⟩ := member
      obtain ⟨here, knownRest⟩ := List.forall_mem_cons.mp known
      obtain ⟨deepHere, deepRest⟩ := Nat.max_le.mp deep
      have related := find?_reads each name
      obtain ⟨reader, found⟩ := Option.isSome_iff_exists.mp here
      have step : layout.take scope value (name, part) =
          reader.read scope (Outline.ofJson part) value := by simp [take, found]
      rw [← find?, found] at related
      cases given : forms.get? name with
      | none => simp [given] at related
      | some form =>
          rw [given] at related
          obtain ⟨-, reads⟩ := Option.rel_some_some.mp related
          calc (∃ after, layout.takeAll scope value ((name, part) :: rest) = .ok after)
            _ ↔ ∃ middle, layout.take scope value (name, part) = .ok middle ∧
                  ∃ after, layout.takeAll scope middle rest = .ok after := by
                simp only [takeAll, List.foldlM_cons, bind_eq_ok_iff]
                rw [exists_comm]
                simp only [exists_and_left]
            _ ↔ form part ∧ ∀ member ∈ rest, ∃ form ∈ forms.get? member.1, form member.2 := by
                simp only [ih knownRest deepRest, exists_and_right, step, reads part deepHere]
            _ ↔ ∀ member ∈ (name, part) :: rest, ∃ form ∈ forms.get? member.1, form member.2 := by
                simp [given]

theorem isSome_find?_iff {forms : Entries (Json → Prop)}
    (each : List.Forall₂ (Member.Reads scope) layout.members forms) (name : String) :
    (layout.find? name).isSome ↔ (forms.get? name).isSome := by
  have related := find?_reads each name
  rw [← find?] at related
  generalize layout.find? name = member, forms.get? name = form at related
  cases related with
  | none => rfl
  | some => rfl

/-- A strict layout takes exactly the objects in which no member comes twice, every member has
the form that its name asks for, and no member is missing. -/
theorem accepts_readObject_iff {forms : Entries (Json → Prop)} (strict : layout.strict)
    (each : List.Forall₂ (Member.Reads scope) layout.members forms)
    (deep : membersDepth members ≤ scope.room) :
    (∃ after, layout.readObject scope (Outline.membersOfJson members) = .ok after) ↔
      Entries.Distinct members ∧
      (∀ member ∈ members, ∃ form ∈ forms.get? member.1, form member.2) ∧
      ∀ member ∈ layout.members, member.required → member.name ∈ Entries.names members := by
  simp only [readObject_ok_iff strict, exists_and_left]
  constructor
  · rintro ⟨distinct, known, complete, taken⟩
    exact ⟨distinct, (exists_takeAll_iff each known deep).mp taken, complete⟩
  · rintro ⟨distinct, formed, complete⟩
    have known : ∀ name ∈ Entries.names members, (layout.find? name).isSome := by
      intro name inNames
      obtain ⟨member, inMembers, rfl⟩ := List.mem_map.mp inNames
      obtain ⟨form, given, -⟩ := formed member inMembers
      rw [isSome_find?_iff each, given]
      rfl
    exact ⟨distinct, known, complete, (exists_takeAll_iff each known deep).mpr formed⟩

end Reading.Layout

end FieldRules

namespace FieldRules

open Json Reading

/-! How much room there is for further levels makes no difference to a value that has room
enough: it is read with the same result, or not at all. Only the causes of failure may differ. -/

def SameResult (first second : Except ε α) : Prop :=
  ∀ result, first = .ok result ↔ second = .ok result

namespace SameResult

theorem refl (first : Except ε α) : SameResult first first := fun _ => Iff.rfl

theorem of_errors (first second : ε) : SameResult (.error first : Except ε α) (.error second) :=
  fun _ => by simp

theorem bind {first second : Except ε α} {next later : α → Except ε β}
    (same : SameResult first second) (each : ∀ value, SameResult (next value) (later value)) :
    SameResult (first >>= next) (second >>= later) := by
  intro result
  rw [bind_eq_ok_iff, bind_eq_ok_iff]
  exact exists_congr fun value => and_congr (same value) (each value result)

theorem map {first second : Except ε α} (same : SameResult first second) (f : α → β) :
    SameResult (first.map f) (second.map f) := by
  intro result
  rw [map_eq_ok_iff, map_eq_ok_iff]
  exact exists_congr fun value => and_congr_left' (same value)

theorem mapM {first second : α → Except ε β} {items : List α}
    (each : ∀ item ∈ items, SameResult (first item) (second item)) :
    SameResult (items.mapM first) (items.mapM second) := by
  induction items with
  | nil => exact refl _
  | cons item rest ih =>
      obtain ⟨here, there⟩ := List.forall_mem_cons.mp each
      rw [List.mapM_cons, List.mapM_cons]
      exact here.bind fun _ => (ih there).bind fun _ => refl _

end SameResult

namespace Json.Outline

variable {scope other : Scope} {value : Json}

theorem readOption_same {first second : Outline → Except ReadError α}
    (same : SameResult (first (ofJson value)) (second (ofJson value))) :
    SameResult (readOption first (ofJson value)) (readOption second (ofJson value)) := by
  cases value with
  | null => exact .refl _
  | bool | number | string | array | object => exact same.map some

section

variable (deep : value.depth ≤ scope.room) (wider : scope.room ≤ other.room)

include deep wider

theorem readList_same {first second : Scope → Outline → Except ReadError α}
    (each : ∀ item : Json, item.depth + 1 ≤ scope.room →
      SameResult (first scope.inside (ofJson item)) (second other.inside (ofJson item))) :
    SameResult (readList scope first (ofJson value)) (readList other second (ofJson value)) := by
  cases value with
  | array items =>
      simp only [readList, ofJson, itemsOfJson_eq, List.mapM_map, enter_of_lt deep,
        enter_of_lt (Nat.lt_of_lt_of_le deep wider)]
      refine .mapM fun item member => each item ?_
      have lower := itemsDepth_le_iff.mp (Nat.le_refl _) item member
      exact Nat.le_trans (Nat.succ_le_succ lower) deep
  | null | bool | number | string | object => exact .of_errors _ _

theorem readEntries_same {first second : Scope → Outline → Except ReadError α}
    (each : ∀ item : Json, item.depth + 1 ≤ scope.room →
      SameResult (first scope.inside (ofJson item)) (second other.inside (ofJson item))) :
    SameResult (readEntries scope first (ofJson value))
      (readEntries other second (ofJson value)) := by
  cases value with
  | object entries =>
      simp only [readEntries, ofJson, membersOfJson_eq, List.mapM_map, enter_of_lt deep,
        enter_of_lt (Nat.lt_of_lt_of_le deep wider)]
      refine .bind (.mapM fun entry member => .bind (.refl _) fun _ => ?_) fun _ => .refl _
      have lower := membersDepth_le_iff.mp (Nat.le_refl _) entry member
      exact (each entry.2 (Nat.le_trans (Nat.succ_le_succ lower) deep)).bind fun _ => .refl _
  | null | bool | number | string | array => exact .of_errors _ _

theorem readStrings_same : SameResult (readStrings scope (ofJson value))
    (readStrings other (ofJson value)) :=
  readList_same deep wider fun _ _ => .refl _

theorem readValue_same : SameResult (readValue scope (ofJson value))
    (readValue other (ofJson value)) := by
  rw [readValue_eq deep, readValue_eq (Nat.le_trans deep wider)]
  exact .refl _

theorem readValues_same : SameResult (readValues scope (ofJson value))
    (readValues other (ofJson value)) := by
  refine readList_same deep wider fun item lower => readValue_same ?_ ?_
  · exact Nat.le_sub_one_of_lt lower
  · exact Nat.sub_le_sub_right wider 1

end

end Json.Outline

namespace Reading

variable {scope other : Scope}

/-- Members that are read alike, the first within a scope and the second within another. -/
structure Member.Alike (scope other : Scope) (first second : Member σ) : Prop where
  name : first.name = second.name
  required : first.required = second.required
  read : ∀ value : Json, value.depth ≤ scope.room → ∀ before,
    SameResult (first.read scope (Outline.ofJson value) before)
      (second.read other (Outline.ofJson value) before)

namespace Layout

structure Alike (scope other : Scope) (first second : Layout σ) : Prop where
  blank : first.blank = second.blank
  strict : first.strict = second.strict
  members : List.Forall₂ (Member.Alike scope other) first.members second.members

/-- Members that do not look at their scope are read alike in any two. -/
theorem alike_of_free {layout : Layout σ} (free : ∀ member ∈ layout.members, ∀ outline before,
    member.read scope outline before = member.read other outline before) :
    layout.Alike scope other layout where
  blank := rfl
  strict := rfl
  members := List.forall₂_same.mpr fun member known =>
    ⟨rfl, rfl, fun value _ before => free member known (Outline.ofJson value) before ▸ .refl _⟩

theorem find?_alike {first second : List (Member σ)}
    (each : List.Forall₂ (Member.Alike scope other) first second)
    (picks : String → Bool → Bool) :
    Option.Rel (Member.Alike scope other)
      (first.find? fun member => picks member.name member.required)
      (second.find? fun member => picks member.name member.required) := by
  induction each with
  | nil => exact .none
  | @cons member twin _ _ alike _ ih =>
      rw [List.find?_cons, List.find?_cons, alike.name, alike.required]
      cases picks twin.name twin.required
      · exact ih
      · exact .some alike

variable {first second : Layout σ}

theorem Alike.readMembers (alike : first.Alike scope other second) {members : List (String × Json)}
    (deep : membersDepth members ≤ scope.room) (seen : List String) (before : σ) :
    SameResult (first.readMembers scope seen before (Outline.membersOfJson members))
      (second.readMembers other seen before (Outline.membersOfJson members)) := by
  induction members generalizing seen before with
  | nil => exact .refl _
  | cons member rest ih =>
      obtain ⟨name, part⟩ := member
      obtain ⟨deepHere, deepRest⟩ := Nat.max_le.mp deep
      have found : Option.Rel (Member.Alike scope other) (first.find? name) (second.find? name) :=
        find?_alike alike.members fun known _ => known == name
      rw [Outline.membersOfJson, Layout.readMembers, Layout.readMembers]
      generalize first.find? name = reader at found
      generalize second.find? name = twin at found
      cases found with
      | none =>
          simp only [alike.strict, Outline.skipFault?_ofJson]
          split
          · exact .of_errors _ _
          · exact ih deepRest seen before
      | some alike =>
          dsimp only
          split
          · exact .of_errors _ _
          · exact (alike.read part deepHere before).bind fun next => ih deepRest _ next

theorem Alike.readObject (alike : first.Alike scope other second)
    {members : List (String × Json)} (deep : membersDepth members ≤ scope.room) :
    SameResult (first.readObject scope (Outline.membersOfJson members))
      (second.readObject other (Outline.membersOfJson members)) := by
  rw [Layout.readObject, Layout.readObject, alike.blank]
  refine (alike.readMembers deep [] _).bind fun read => ?_
  obtain ⟨seen, value⟩ := read
  have missing := find?_alike alike.members
    fun name required => required && !seen.contains name
  dsimp only
  generalize first.members.find? _ = absent at missing
  generalize second.members.find? _ = twin at missing
  cases missing with
  | none => exact .refl _
  | some _ => exact .of_errors _ _

theorem readItems_same {members twins : List (Member σ)}
    (each : List.Forall₂ (Member.Alike scope other) members twins) {items : List Json}
    (deep : itemsDepth items ≤ scope.room) (place : Nat) (before : σ) :
    SameResult (first.readItems scope place before members (Outline.itemsOfJson items))
      (second.readItems other place before twins (Outline.itemsOfJson items)) := by
  induction each generalizing items place before with
  | nil =>
      cases items with
      | nil => exact .refl _
      | cons => exact .of_errors _ _
  | cons alike _ ih =>
      cases items with
      | nil =>
          simp only [Outline.itemsOfJson, readItems, alike.required]
          split
          · exact .of_errors _ _
          · exact @ih [] deep (place + 1) before
      | cons item rest =>
          obtain ⟨deepHere, deepRest⟩ := Nat.max_le.mp deep
          simp only [Outline.itemsOfJson, readItems]
          exact (alike.read item deepHere before).bind fun next => ih deepRest (place + 1) next

theorem Alike.readList (alike : first.Alike scope other second) {items : List Json}
    (deep : itemsDepth items ≤ scope.room) :
    SameResult (first.readList scope (Outline.itemsOfJson items))
      (second.readList other (Outline.itemsOfJson items)) := by
  rw [Layout.readList, Layout.readList, alike.blank]
  exact readItems_same alike.members deep 0 _

theorem Alike.read (alike : first.Alike scope.inside other.inside second) {value : Json}
    (deep : value.depth ≤ scope.room) (wider : scope.room ≤ other.room) :
    SameResult (first.read scope (Outline.ofJson value))
      (second.read other (Outline.ofJson value)) := by
  cases value with
  | object members =>
      rw [Outline.ofJson, Layout.read, Layout.read, Outline.enter_of_lt deep,
        Outline.enter_of_lt (Nat.lt_of_lt_of_le deep wider)]
      exact alike.readObject (Nat.le_sub_one_of_lt deep)
  | array items =>
      rw [Outline.ofJson, Layout.read, Layout.read, Outline.enter_of_lt deep,
        Outline.enter_of_lt (Nat.lt_of_lt_of_le deep wider)]
      exact alike.readList (Nat.le_sub_one_of_lt deep)
  | null | bool | number | string => exact .of_errors _ _

end Layout

end Reading

end FieldRules
