import FieldRules.Json.Basic

namespace FieldRules.Json

/-! Values that are the same agree with the same values, and every value agrees with
itself. -/

/-- A comparison that does not tell the same numbers apart. -/
def Number.Respects (numbers : Number → Number → Bool) : Prop :=
  ∀ {first second : Number}, first.same second = true →
    ∀ other, numbers other first = numbers other second

namespace Number

theorem same_refl (number : Number) : number.same number = true := by
  cases number with
  | whole value fits => simp [same]
  | double value => simp [same, Double.same]

theorem units_eq_of_same {first second : Number} (same : first.same second = true) :
    first.units = second.units := by
  cases first with
  | whole value fits =>
      cases second with
      | whole other otherFits =>
          obtain rfl : value = other := by simpa [Number.same] using same
          rfl
      | double other => cases same
  | double value =>
      cases second with
      | whole other otherFits => cases same
      | double other =>
          simpa [Number.same, Double.same, units] using same

theorem respects_equal : Respects Number.equal := by
  intro first second same other
  rw [Number.equal, Number.equal, units_eq_of_same same]

end Number

mutual

theorem agree_congr (respects : Number.Respects numbers) :
    ∀ (value first second : Json), first.same second = true →
    agree numbers value first = agree numbers value second
  | value, .null, second, same => by
      cases second with
      | null => rfl
      | _ => cases same
  | value, .bool flag, second, same => by
      cases second with
      | bool other => rw [show flag = other by simpa [Json.same, agree] using same]
      | _ => cases same
  | value, .number first, second, same => by
      cases second with
      | number second =>
          cases value with
          | number value => exact respects same _
          | _ => rfl
      | _ => cases same
  | value, .string text, second, same => by
      cases second with
      | string other => rw [show text = other by simpa [Json.same, agree] using same]
      | _ => cases same
  | value, .array first, second, same => by
      cases second with
      | array second =>
          cases value with
          | array items => exact agreeItems_congr respects items first second same
          | _ => rfl
      | _ => cases same
  | value, .object first, second, same => by
      cases second with
      | object second =>
          cases value with
          | object members => exact agreeMembers_congr respects members first second same
          | _ => rfl
      | _ => cases same

theorem agreeItems_congr (respects : Number.Respects numbers) :
    ∀ (items first second : List Json),
    agreeItems Number.same first second = true →
    agreeItems numbers items first = agreeItems numbers items second
  | items, [], second, same => by
      cases second with
      | nil => rfl
      | cons => cases same
  | items, first :: restFirst, second, same => by
      cases second with
      | nil => cases same
      | cons second restSecond =>
          obtain ⟨head, tail⟩ := Bool.and_eq_true_iff.mp same
          cases items with
          | nil => rfl
          | cons item rest =>
              rw [agreeItems, agreeItems, agree_congr respects item first second head,
                agreeItems_congr respects rest restFirst restSecond tail]

theorem agreeMembers_congr (respects : Number.Respects numbers) :
    ∀ (members first second : List (String × Json)),
    agreeMembers Number.same first second = true →
    agreeMembers numbers members first = agreeMembers numbers members second
  | members, [], second, same => by
      cases second with
      | nil => rfl
      | cons => cases same
  | members, (nameFirst, first) :: restFirst, second, same => by
      cases second with
      | nil => cases same
      | cons second restSecond =>
          obtain ⟨nameSecond, second⟩ := second
          simp only [agreeMembers, Bool.and_eq_true, beq_iff_eq] at same
          obtain ⟨⟨rfl, head⟩, tail⟩ := same
          cases members with
          | nil => rfl
          | cons member rest =>
              rw [agreeMembers, agreeMembers, agree_congr respects member.2 first second head,
                agreeMembers_congr respects rest restFirst restSecond tail]

end

mutual

theorem same_refl : ∀ value : Json, value.same value = true
  | .null => rfl
  | .bool flag => by simp [same, agree]
  | .number numeral => numeral.same_refl
  | .string text => by simp [same, agree]
  | .array items => sameItems_refl items
  | .object members => sameMembers_refl members

theorem sameItems_refl : ∀ items, agreeItems Number.same items items = true
  | [] => rfl
  | item :: rest => Bool.and_eq_true_iff.mpr ⟨same_refl item, sameItems_refl rest⟩

theorem sameMembers_refl : ∀ members, agreeMembers Number.same members members = true
  | [] => rfl
  | (name, value) :: rest => by
      simp only [agreeMembers, beq_self_eq_true, Bool.true_and, Bool.and_eq_true]
      exact ⟨same_refl value, sameMembers_refl rest⟩

end

/-! Values that are taken in one after the other, but for those that are the same as one before.
Sameness is an equivalence, so that it does not matter which of them is kept. -/

theorem Number.respects_same : Number.Respects Number.same := by
  intro first second same other
  cases first with
  | whole value fits =>
      cases second with
      | whole again againFits =>
          obtain rfl : value = again := by simpa [Number.same] using same
          rfl
      | double again => cases same
  | double value =>
      cases second with
      | whole again againFits => cases same
      | double again =>
          have equal : value.units = again.units := by
            simpa [Number.same, Double.same] using same
          cases other with
          | whole => rfl
          | double other => simp [Number.same, Double.same, equal]

theorem same_congr {first second : Json} (same : first.same second = true) (value : Json) :
    value.same first = value.same second :=
  agree_congr Number.respects_same value first second same

theorem same_symm {first second : Json} (same : first.same second = true) :
    second.same first = true := by
  rw [same_congr same, same_refl]

def Distinct (values : List Json) : Prop :=
  values.Pairwise fun earlier later => earlier.same later = false

/-- A value that is not added is the same as one of the others. -/
theorem any_addNew {numbers : Number → Number → Bool} (respects : Number.Respects numbers)
    (values more : List Json) (value : Json) :
    (addNew values more).any (agree numbers value) =
      (values.any (agree numbers value) || more.any (agree numbers value)) := by
  induction more generalizing values with
  | nil => simp [addNew]
  | cons next rest ih =>
      have step : (if next.isIn values then values else values ++ [next]).any
          (agree numbers value) =
            (values.any (agree numbers value) || agree numbers value next) := by
        cases already : next.isIn values with
        | false => simp
        | true =>
            obtain ⟨other, member, same⟩ := List.any_eq_true.mp already
            have implied : agree numbers value next = true →
                values.any (agree numbers value) = true := by
              intro agrees
              refine List.any_eq_true.mpr ⟨other, member, ?_⟩
              rwa [← agree_congr respects value next other same]
            simpa using implied
      have rest := ih (if next.isIn values then values else values ++ [next])
      rw [step] at rest
      simpa [addNew, Bool.or_assoc] using rest

theorem isIn_addNew (values more : List Json) (value : Json) :
    value.isIn (addNew values more) = (value.isIn values || value.isIn more) :=
  any_addNew Number.respects_same values more value

theorem Distinct.addNew {values : List Json} (distinct : Distinct values) (more : List Json) :
    Distinct (addNew values more) := by
  induction more generalizing values with
  | nil => exact distinct
  | cons next rest ih =>
      rw [Json.addNew, List.foldl_cons]
      refine ih ?_
      split
      · exact distinct
      · next new =>
          refine List.pairwise_append.mpr ⟨distinct, List.pairwise_singleton _ _, ?_⟩
          intro value member other isNext
          obtain rfl := List.mem_singleton.mp isNext
          rw [Bool.eq_false_iff]
          intro same
          exact new (List.any_eq_true.mpr ⟨value, member, same_symm same⟩)

private theorem eraseDupsBy_loop_eq (values kept : List Json) :
    List.eraseDupsBy.loop same values kept = addNew kept.reverse values := by
  induction values generalizing kept with
  | nil => simp [List.eraseDupsBy.loop, addNew]
  | cons value rest ih =>
      rw [List.eraseDupsBy.loop, addNew, List.foldl_cons]
      cases known : kept.any value.same with
      | false => simp [ih, isIn, known, addNew]
      | true => simp [ih, isIn, known, addNew]

theorem eraseDupsBy_eq (values : List Json) : values.eraseDupsBy same = addNew [] values :=
  eraseDupsBy_loop_eq values []

/-- Taking in values one list after the other is taking them in at once. -/
theorem addNew_eraseDupsBy (values more : List Json) :
    addNew (values.eraseDupsBy same) more = (values ++ more).eraseDupsBy same := by
  rw [eraseDupsBy_eq, eraseDupsBy_eq]
  exact List.foldl_append.symm

theorem distinct_eraseDupsBy (values : List Json) : Distinct (values.eraseDupsBy same) := by
  rw [eraseDupsBy_eq]
  exact Distinct.addNew List.Pairwise.nil values

theorem isIn_eraseDupsBy (values : List Json) (value : Json) :
    value.isIn (values.eraseDupsBy same) = value.isIn values := by
  rw [eraseDupsBy_eq, isIn_addNew]
  rfl

end FieldRules.Json
