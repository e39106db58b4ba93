import FieldRules.Json.Outline
import FieldRules.Proofs.Entries

namespace FieldRules.Json

/-! A value outlined says what it said, without a fault in any reader that has room for
its containers. -/

mutual

def depth : Json → Nat
  | .array items => itemsDepth items + 1
  | .object members => membersDepth members + 1
  | _ => 0

def itemsDepth : List Json → Nat
  | [] => 0
  | item :: rest => max (depth item) (itemsDepth rest)

def membersDepth : List (String × Json) → Nat
  | [] => 0
  | (_, value) :: rest => max (depth value) (membersDepth rest)

end

theorem itemsDepth_le_iff {items : List Json} {room : Nat} :
    itemsDepth items ≤ room ↔ ∀ item ∈ items, item.depth ≤ room := by
  induction items with
  | nil => simp [itemsDepth]
  | cons item rest ih => simp only [itemsDepth, Nat.max_le, ih, List.forall_mem_cons]

theorem membersDepth_le_iff {members : List (String × Json)} {room : Nat} :
    membersDepth members ≤ room ↔ ∀ member ∈ members, member.2.depth ≤ room := by
  induction members with
  | nil => simp [membersDepth]
  | cons member rest ih =>
      obtain ⟨name, value⟩ := member
      simp only [membersDepth, Nat.max_le, ih, List.forall_mem_cons]

namespace Outline

theorem itemsOfJson_eq (items : List Json) : itemsOfJson items = items.map ofJson := by
  induction items with
  | nil => rfl
  | cons item rest ih => rw [itemsOfJson, ih, List.map_cons]

theorem membersOfJson_eq (members : List (String × Json)) :
    membersOfJson members =
      members.map fun member => (MemberName.known member.1, ofJson member.2) := by
  induction members with
  | nil => rfl
  | cons member rest ih =>
      obtain ⟨name, value⟩ := member
      rw [membersOfJson, ih, List.map_cons]

mutual

theorem toJson_ofJson : ∀ value : Json, (ofJson value).toJson = value
  | .null | .bool _ | .number _ | .string _ => rfl
  | .array items => congrArg Json.array (itemsToJson_ofJson items)
  | .object members => congrArg Json.object (membersToJson_ofJson members)

theorem itemsToJson_ofJson : ∀ items : List Json, itemsToJson (itemsOfJson items) = items
  | [] => rfl
  | item :: rest => by
      rw [itemsOfJson, itemsToJson, toJson_ofJson item, itemsToJson_ofJson rest]

theorem membersToJson_ofJson :
    ∀ members : List (String × Json), membersToJson (membersOfJson members) = members
  | [] => rfl
  | (name, value) :: rest => by
      rw [membersOfJson, membersToJson, toJson_ofJson value, membersToJson_ofJson rest]

end

mutual

theorem skipFault?_ofJson : ∀ value : Json, (ofJson value).skipFault? = none
  | .null | .bool _ | .number _ | .string _ => rfl
  | .array items => skipItemsFault?_ofJson items
  | .object members => skipMembersFault?_ofJson members

theorem skipItemsFault?_ofJson :
    ∀ items : List Json, skipItemsFault? (itemsOfJson items) = none
  | [] => rfl
  | item :: rest => by
      rw [itemsOfJson, skipItemsFault?, skipFault?_ofJson item, skipItemsFault?_ofJson rest]
      rfl

theorem skipMembersFault?_ofJson :
    ∀ members : List (String × Json), skipMembersFault? (membersOfJson members) = none
  | [] => rfl
  | (name, value) :: rest => by
      rw [membersOfJson, skipMembersFault?, skipFault?_ofJson value,
        skipMembersFault?_ofJson rest]
      rfl

end

mutual

theorem fault?_ofJson : ∀ (value : Json) {room : Nat}, value.depth ≤ room →
    (ofJson value).fault? room = none
  | .null, _, _ | .bool _, _, _ | .number _, _, _ | .string _, _, _ => rfl
  | .array items, room, deep => by
      cases room with
      | zero => simp [depth] at deep
      | succ room => exact itemsFault?_ofJson items (by simpa [depth] using deep)
  | .object members, room, deep => by
      cases room with
      | zero => simp [depth] at deep
      | succ room => exact membersFault?_ofJson members (by simpa [depth] using deep)

theorem itemsFault?_ofJson : ∀ (items : List Json) {room : Nat}, itemsDepth items ≤ room →
    itemsFault? room (itemsOfJson items) = none
  | [], _, _ => rfl
  | item :: rest, room, deep => by
      obtain ⟨first, others⟩ := Nat.max_le.mp deep
      rw [itemsOfJson, itemsFault?, fault?_ofJson item first, itemsFault?_ofJson rest others]
      rfl

theorem membersFault?_ofJson : ∀ (members : List (String × Json)) {room : Nat},
    membersDepth members ≤ room → membersFault? room (membersOfJson members) = none
  | [], _, _ => rfl
  | (name, value) :: rest, room, deep => by
      obtain ⟨first, others⟩ := Nat.max_le.mp deep
      rw [membersOfJson, membersFault?, fault?_ofJson value first,
        membersFault?_ofJson rest others]
      rfl

end

end Outline

/-! A value read whole is sorted for good, and no deeper than its reader had room for. -/

theorem sortedMembers_eq_self {members : List (String × Json)}
    (each : ∀ member ∈ members, member.2.sorted = member.2) :
    sortedMembers members = members := by
  induction members with
  | nil => rfl
  | cons member rest ih =>
      obtain ⟨name, value⟩ := member
      have first : value.sorted = value := each (name, value) List.mem_cons_self
      rw [sortedMembers, first, ih fun other inRest => each other (List.mem_cons_of_mem _ inRest)]

mutual

theorem sorted_sorted : ∀ value : Json, value.sorted.sorted = value.sorted
  | .null | .bool _ | .number _ | .string _ => rfl
  | .array items => congrArg Json.array (sortedItems_sortedItems items)
  | .object members => by
      have each : ∀ member ∈ Entries.sort (sortedMembers members), member.2.sorted = member.2 :=
        fun member inSorted =>
          sorted_of_mem_sortedMembers members member (Entries.mem_of_mem_sort inSorted)
      rw [sorted, sorted, sortedMembers_eq_self each, (Entries.ordered_sort _).sort_eq]

theorem sortedItems_sortedItems :
    ∀ items : List Json, sortedItems (sortedItems items) = sortedItems items
  | [] => rfl
  | item :: rest => by
      rw [sortedItems, sortedItems, sorted_sorted item, sortedItems_sortedItems rest]

theorem sorted_of_mem_sortedMembers : ∀ members : List (String × Json),
    ∀ member ∈ sortedMembers members, member.2.sorted = member.2
  | [] => fun _ none => absurd none List.not_mem_nil
  | (name, value) :: rest => by
      intro member inSorted
      rcases List.mem_cons.mp inSorted with rfl | inRest
      · exact sorted_sorted value
      · exact sorted_of_mem_sortedMembers rest member inRest

end

mutual

theorem depth_sorted_le : ∀ value : Json, value.sorted.depth ≤ value.depth
  | .null | .bool _ | .number _ | .string _ => Nat.le_refl _
  | .array items => Nat.succ_le_succ (itemsDepth_sortedItems_le items)
  | .object members => by
      refine Nat.succ_le_succ (membersDepth_le_iff.mpr fun member inSorted => ?_)
      exact depth_le_of_mem_sortedMembers members member (Entries.mem_of_mem_sort inSorted)

theorem itemsDepth_sortedItems_le :
    ∀ items : List Json, itemsDepth (sortedItems items) ≤ itemsDepth items
  | [] => Nat.le_refl _
  | item :: rest =>
      Nat.max_le.mpr ⟨Nat.le_trans (depth_sorted_le item) (Nat.le_max_left ..),
        Nat.le_trans (itemsDepth_sortedItems_le rest) (Nat.le_max_right ..)⟩

theorem depth_le_of_mem_sortedMembers : ∀ members : List (String × Json),
    ∀ member ∈ sortedMembers members, member.2.depth ≤ membersDepth members
  | [] => fun _ none => absurd none List.not_mem_nil
  | (name, value) :: rest => by
      intro member inSorted
      rcases List.mem_cons.mp inSorted with rfl | inRest
      · exact Nat.le_trans (depth_sorted_le value) (Nat.le_max_left ..)
      · exact Nat.le_trans (depth_le_of_mem_sortedMembers rest member inRest)
          (Nat.le_max_right ..)

end

namespace Outline

private theorem orElse_eq_none {first second : Option α} (none : (first <|> second) = none) :
    first = .none ∧ second = .none := by
  cases first with
  | none => exact ⟨rfl, none⟩
  | some value => cases none

mutual

theorem depth_toJson_le : ∀ (outline : Outline) {room : Nat}, outline.fault? room = none →
    outline.toJson.depth ≤ room
  | .null, _, _ | .bool _, _, _ | .number _, _, _ | .string _, _, _ => Nat.zero_le _
  | .list items, room, sound => by
      cases room with
      | zero => cases sound
      | succ room => exact Nat.succ_le_succ (itemsDepth_itemsToJson_le items sound)
  | .object members, room, sound => by
      cases room with
      | zero => cases sound
      | succ room => exact Nat.succ_le_succ (membersDepth_membersToJson_le members sound)
  | .flawed _, _, sound => nomatch sound

theorem itemsDepth_itemsToJson_le : ∀ (items : List Outline) {room : Nat},
    itemsFault? room items = none → itemsDepth (itemsToJson items) ≤ room
  | [], _, _ => Nat.zero_le _
  | item :: rest, room, sound => by
      obtain ⟨first, others⟩ := orElse_eq_none sound
      exact Nat.max_le.mpr
        ⟨depth_toJson_le item first, itemsDepth_itemsToJson_le rest others⟩

theorem membersDepth_membersToJson_le : ∀ (members : List (MemberName × Outline)) {room : Nat},
    membersFault? room members = none → membersDepth (membersToJson members) ≤ room
  | [], _, _ => Nat.zero_le _
  | (.flawed _, _) :: _, _, sound => nomatch sound
  | (.known _, value) :: rest, room, sound => by
      obtain ⟨first, others⟩ := orElse_eq_none sound
      exact Nat.max_le.mpr
        ⟨depth_toJson_le value first, membersDepth_membersToJson_le rest others⟩

end

/-! What can be read whole is the outline of its value. -/

mutual

theorem ofJson_toJson : ∀ (outline : Outline) {room : Nat}, outline.fault? room = none →
    ofJson outline.toJson = outline
  | .null, _, _ | .bool _, _, _ | .number _, _, _ | .string _, _, _ => rfl
  | .list items, room, sound => by
      cases room with
      | zero => cases sound
      | succ room => exact congrArg Outline.list (itemsOfJson_itemsToJson items sound)
  | .object members, room, sound => by
      cases room with
      | zero => cases sound
      | succ room => exact congrArg Outline.object (membersOfJson_membersToJson members sound)
  | .flawed _, _, sound => nomatch sound

theorem itemsOfJson_itemsToJson : ∀ (items : List Outline) {room : Nat},
    itemsFault? room items = none → itemsOfJson (itemsToJson items) = items
  | [], _, _ => rfl
  | item :: rest, room, sound => by
      obtain ⟨first, others⟩ := orElse_eq_none sound
      rw [itemsToJson, itemsOfJson, ofJson_toJson item first,
        itemsOfJson_itemsToJson rest others]

theorem membersOfJson_membersToJson : ∀ (members : List (MemberName × Outline)) {room : Nat},
    membersFault? room members = none → membersOfJson (membersToJson members) = members
  | [], _, _ => rfl
  | (.flawed _, _) :: _, _, sound => nomatch sound
  | (.known name, value) :: rest, room, sound => by
      obtain ⟨first, others⟩ := orElse_eq_none sound
      rw [membersToJson, membersOfJson, ofJson_toJson value first,
        membersOfJson_membersToJson rest others]

end

end Outline

end FieldRules.Json
