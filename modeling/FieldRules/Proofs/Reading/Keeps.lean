import FieldRules.Proofs.Except
import FieldRules.Proofs.Json.Outline
import FieldRules.Reading

namespace FieldRules

open Json Reading

/-! What can be said of a value only because it was read, whatever the text was. -/

namespace Json.Outline

variable {scope : Scope} {outline : Outline}

theorem enter_ok {reader : Scope → Except ReadError α} {result : α}
    (read : enter scope reader = .ok result) :
    ∃ room, scope.room = room + 1 ∧ reader { scope with room } = .ok result := by
  unfold enter at read
  split at read
  · cases read
  · next room isRoom => exact ⟨room, isRoom, read⟩

theorem readOption_ok {reader : Outline → Except ReadError α} {result : Option α}
    (read : readOption reader outline = .ok result) :
    ∀ value ∈ result, outline ≠ .null ∧ reader outline = .ok value := by
  unfold readOption at read
  split at read
  · cases read
    exact nofun
  · next present =>
      obtain ⟨value, given, rfl⟩ := map_eq_ok_iff.mp read
      rintro _ ⟨⟩
      exact ⟨present, given⟩

theorem readList_ok {reader : Scope → Outline → Except ReadError α} {items : List α}
    (read : readList scope reader outline = .ok items) :
    ∃ room, scope.room = room + 1 ∧
      ∀ item ∈ items, ∃ part, reader { scope with room } part = .ok item := by
  unfold readList at read
  split at read
  · obtain ⟨room, isRoom, taken⟩ := enter_ok read
    refine ⟨room, isRoom, fun item member => ?_⟩
    obtain ⟨part, _, given⟩ := exists_of_mem_mapM taken member
    exact ⟨part, given⟩
  · cases read

theorem readEntries_ok {reader : Scope → Outline → Except ReadError α} {entries : Entries α}
    (read : readEntries scope reader outline = .ok entries) :
    ∃ room, scope.room = room + 1 ∧ entries.Distinct ∧
      ∀ entry ∈ entries, ∃ part, reader { scope with room } part = .ok entry.2 := by
  unfold readEntries at read
  split at read
  · obtain ⟨room, isRoom, taken⟩ := enter_ok read
    obtain ⟨pairs, paired, collected⟩ := bind_eq_ok_iff.mp taken
    cases collected
    refine ⟨room, isRoom, Entries.distinct_ofList pairs, fun entry member => ?_⟩
    have inPairs : entry ∈ pairs := Entries.mem_of_last? (Entries.mem_ofList_iff.mp member)
    obtain ⟨part, _, taken⟩ := exists_of_mem_mapM paired inPairs
    obtain ⟨name, _, taken⟩ := bind_eq_ok_iff.mp taken
    obtain ⟨value, given, named⟩ := bind_eq_ok_iff.mp taken
    cases named
    exact ⟨part.2, given⟩
  · cases read

theorem check_ok_iff : outline.check scope = .ok () ↔ outline.fault? scope.room = none := by
  unfold check
  split
  · next inRoom => simp [inRoom]
  · next problem fault => simp [fault]

theorem readValue_ok {value : Json} (read : readValue scope outline = .ok value) :
    value.sorted = value ∧ value.depth ≤ scope.room := by
  obtain ⟨_, checked, taken⟩ := bind_eq_ok_iff.mp read
  cases taken
  have deep := depth_toJson_le outline (check_ok_iff.mp checked)
  exact ⟨sorted_sorted _, Nat.le_trans (depth_sorted_le _) deep⟩

/-- Only a null would be read as null, and options are asked before. -/
theorem readValue_ne_null {value : Json} (present : outline ≠ .null)
    (read : readValue scope outline = .ok value) : value ≠ .null := by
  obtain ⟨_, checked, taken⟩ := bind_eq_ok_iff.mp read
  cases taken
  cases outline with
  | null => exact absurd rfl present
  | flawed flaw => cases checked
  | bool | number | string | list | object => exact nofun

theorem readValues_ok {values : List Json} (read : readValues scope outline = .ok values) :
    ∃ room, scope.room = room + 1 ∧ itemsDepth values ≤ room ∧
      ∀ value ∈ values, value.sorted = value := by
  obtain ⟨room, isRoom, each⟩ := readList_ok read
  refine ⟨room, isRoom, itemsDepth_le_iff.mpr fun value member => ?_, fun value member => ?_⟩
  · obtain ⟨part, given⟩ := each value member
    exact (readValue_ok given).2
  · obtain ⟨part, given⟩ := each value member
    exact (readValue_ok given).1

end Json.Outline

namespace Reading.Layout

variable {layout : Layout σ} {scope : Scope} {holds : σ → Prop} {value after : σ}

/-- A property that reading any member, wherever it stands, does not take away. -/
structure Keeps (layout : Layout σ) (scope : Scope) (holds : σ → Prop) : Prop where
  blank : holds layout.blank
  member : ∀ member ∈ layout.members, ∀ {outline value after}, holds value →
    member.read scope outline value = .ok after → holds after

theorem Keeps.readMembers (keeps : layout.Keeps scope holds) {seen seenAfter : List String}
    {members : List (MemberName × Outline)} (before : holds value)
    (read : layout.readMembers scope seen value members = .ok (seenAfter, after)) :
    holds after := by
  induction members generalizing seen value with
  | nil =>
      cases read
      exact before
  | cons member rest ih =>
      obtain ⟨_ | flaw, outline⟩ := member
      case flawed => cases read
      rw [Layout.readMembers] at read
      split at read
      · split at read
        · cases read
        · split at read
          · cases read
          · exact ih before read
      · next reader found =>
          split at read
          · cases read
          · obtain ⟨next, taken, read⟩ := bind_eq_ok_iff.mp read
            exact ih (keeps.member reader (List.mem_of_find?_eq_some found) before taken) read

theorem Keeps.readObject (keeps : layout.Keeps scope holds)
    {members : List (MemberName × Outline)} (read : layout.readObject scope members = .ok after) :
    holds after := by
  obtain ⟨⟨seen, value⟩, taken, read⟩ := bind_eq_ok_iff.mp read
  have kept : holds value := keeps.readMembers keeps.blank taken
  dsimp only at read
  split at read
  · cases read
  · cases read
    exact kept

theorem Keeps.readItems (keeps : layout.Keeps scope holds) {place : Nat}
    {members : List (Member σ)} (known : members ⊆ layout.members) {items : List Outline}
    (before : holds value)
    (read : layout.readItems scope place value members items = .ok after) : holds after := by
  induction members generalizing place value items with
  | nil =>
      cases items with
      | nil =>
          cases read
          exact before
      | cons item rest => cases read
  | cons member others ih =>
      obtain ⟨first, othersKnown⟩ := List.cons_subset.mp known
      cases items with
      | nil =>
          rw [Layout.readItems] at read
          split at read
          · cases read
          · exact ih othersKnown before read
      | cons item rest =>
          obtain ⟨next, taken, read⟩ := bind_eq_ok_iff.mp read
          exact ih othersKnown (keeps.member member first before taken) read

theorem Keeps.readList (keeps : layout.Keeps scope holds) {items : List Outline}
    (read : layout.readList scope items = .ok after) : holds after :=
  keeps.readItems (List.Subset.refl _) keeps.blank read

theorem Keeps.read {outline : Outline}
    (keeps : ∀ {room}, scope.room = room + 1 → layout.Keeps { scope with room } holds)
    (read : layout.read scope outline = .ok after) : holds after := by
  unfold Layout.read at read
  split at read
  · obtain ⟨room, isRoom, taken⟩ := Outline.enter_ok read
    exact (keeps isRoom).readObject taken
  · obtain ⟨room, isRoom, taken⟩ := Outline.enter_ok read
    exact (keeps isRoom).readList taken
  · cases read

end Reading.Layout

theorem Reading.document_ok_iff {reader : Scope → Outline → Except ReadError α} {text : String}
    {value : α} : document reader text = .ok value ↔
      reader .outermost (Outline.ofText text).1 = .ok value ∧
        (Outline.ofText text).2 = false := by
  simp only [document, bind_eq_ok_iff]
  cases (Outline.ofText text).2 with
  | false => simp
  | true => simp

theorem Reading.document_ok {reader : Scope → Outline → Except ReadError α} {text : String}
    {value : α} (read : document reader text = .ok value) :
    reader .outermost (Outline.ofText text).1 = .ok value := (document_ok_iff.mp read).1

end FieldRules
