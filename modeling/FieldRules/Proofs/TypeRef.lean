import FieldRules.Attribute
import Mathlib.Data.ENat.Lattice

namespace FieldRules

/-! A type is asked for its answers one by one. What two answers leave at hand decides
everything. -/

def ResolvedType.description (resolved : ResolvedType) : TypeDescription where
  name := some resolved.name
  values := resolved.values
  precision := resolved.precision
  max := resolved.max
  format := resolved.format

namespace TypeDescription

variable {description : TypeDescription} {resolved : ResolvedType}

theorem resolve_ok_iff :
    description.resolve = .ok resolved ↔
      description = resolved.description ∧ resolved.name ≠ "" := by
  obtain ⟨name, values, precision, max, format⟩ := description
  cases name with
  | none => simp [resolve, ResolvedType.description]
  | some name =>
      constructor
      · intro resolution
        by_cases blank : name = ""
        · simp [resolve, blank] at resolution
        · obtain rfl : ⟨name, values, precision, max, format⟩ = resolved := by
            simpa [resolve, blank] using resolution
          exact ⟨rfl, blank⟩
      · rintro ⟨equal, named⟩
        cases equal
        simp [resolve, named]

theorem resolve_error_iff {reason : Unresolved} :
    description.resolve = .error reason ↔
      reason = .missing ∧ (description.name = none ∨ description.name = some "") := by
  unfold resolve
  split
  · next unnamed => simp [unnamed, eq_comm]
  · next name named =>
      by_cases blank : name = ""
      · simp [named, blank, eq_comm]
      · simp [named, blank]

end TypeDescription

namespace TypeRef

variable {ref : TypeRef} {resolved : ResolvedType}

/-- The type after one more answer. A type at hand stays as it is. -/
def ask : TypeRef → TypeRef
  | .deferred answer => answer
  | ref => ref

/-- What a type at hand says. A type that has to be asked for says nothing. -/
def description? : TypeRef → Option TypeDescription
  | .named name => some { name := some name }
  | .described description => some description
  | .deferred _ | .endless => none

/-- The type after a number of answers. -/
def after : (answers : Nat) → TypeRef → TypeRef
  | 0, ref => ref
  | answers + 1, ref => after answers ref.ask

theorem resolveWithin_eq (left : Nat) (ref : TypeRef) :
    (resolveWithin left ref).1 =
      match (after left ref).description? with
      | none => .error .diverged
      | some description => description.resolve := by
  induction left generalizing ref with
  | zero =>
      cases ref with
      | named | described | deferred | endless => rfl
  | succ left ih =>
      cases ref with
      | named name => simpa only [resolveWithin, after, ask] using ih (.named name)
      | described description =>
          simpa only [resolveWithin, after, ask] using ih (.described description)
      | deferred answer => exact ih answer
      | endless => exact ih .endless

theorem resolve_eq (ref : TypeRef) :
    ref.resolve =
      match ref.ask.ask.description? with
      | none => .error .diverged
      | some description => description.resolve :=
  resolveWithin_eq greatestAnswers ref

theorem resolve_ok_iff :
    ref.resolve = .ok resolved ↔
      ref.ask.ask.description? = some resolved.description ∧ resolved.name ≠ "" := by
  rw [resolve_eq]
  cases ref.ask.ask.description? with
  | none => simp
  | some description => simp [TypeDescription.resolve_ok_iff]

theorem name_ne_empty (resolution : ref.resolve = .ok resolved) : resolved.name ≠ "" :=
  (resolve_ok_iff.mp resolution).2

end TypeRef

end FieldRules

namespace FieldRules.TypeRef

/-! A type may have to be asked for any number of times, or without end. Resolving it asks at
most twice, and within that bound the type comes out as if it had been at hand. -/

/-- A type is resolved answer by answer, with a number of them asked for so far: what is at hand
ends it, then the bound does, and only then is the next answer asked for. -/
inductive Ends : (asked : Nat) → TypeRef → (total : Nat) → Except Unresolved ResolvedType → Prop
  | atHand {asked : Nat} {ref : TypeRef} {description : TypeDescription}
      (given : ref.description? = some description) : Ends asked ref asked description.resolve
  | stopped {ref : TypeRef} (asks : ref.description? = none) :
      Ends greatestAnswers ref greatestAnswers (.error .diverged)
  | answered {asked total : Nat} {ref : TypeRef} {outcome : Except Unresolved ResolvedType}
      (asks : ref.description? = none) (free : asked ≠ greatestAnswers)
      (rest : Ends (asked + 1) ref.ask total outcome) : Ends asked ref total outcome

variable {ref : TypeRef} {description : TypeDescription} {left asked total : Nat}
  {outcome : Except Unresolved ResolvedType}

theorem resolveWithin_of_given (given : ref.description? = some description) (left : Nat) :
    resolveWithin left ref = (description.resolve, 0) := by
  cases ref with
  | named | described =>
      obtain rfl := Option.some.inj given
      cases left with
      | zero => rfl
      | succ left => rfl
  | deferred | endless => cases given

theorem resolveWithin_zero_of_asks (asks : ref.description? = none) :
    resolveWithin 0 ref = (.error .diverged, 0) := by
  cases ref with
  | named | described => cases asks
  | deferred | endless => rfl

theorem resolveWithin_succ_of_asks (asks : ref.description? = none) (left : Nat) :
    resolveWithin (left + 1) ref =
      ((resolveWithin left ref.ask).1, (resolveWithin left ref.ask).2 + 1) := by
  cases ref with
  | named | described => cases asks
  | deferred | endless => rfl

theorem ends_resolveWithin (room : asked + left = greatestAnswers) (ref : TypeRef) :
    Ends asked ref (asked + (resolveWithin left ref).2) (resolveWithin left ref).1 := by
  induction left generalizing asked ref with
  | zero =>
      obtain rfl : asked = greatestAnswers := room
      cases given : ref.description? with
      | none =>
          rw [resolveWithin_zero_of_asks given]
          exact .stopped given
      | some description =>
          rw [resolveWithin_of_given given]
          exact .atHand given
  | succ left ih =>
      cases given : ref.description? with
      | none =>
          have fewer : asked + 1 + left = greatestAnswers := by omega
          have rest := ih fewer ref.ask
          rw [Nat.add_right_comm, Nat.add_assoc] at rest
          rw [resolveWithin_succ_of_asks given]
          exact .answered given (by omega) rest
      | some description =>
          rw [resolveWithin_of_given given]
          exact .atHand given

theorem Ends.eq_resolveWithin (ends : Ends asked ref total outcome)
    (room : asked + left = greatestAnswers) :
    total = asked + (resolveWithin left ref).2 ∧ outcome = (resolveWithin left ref).1 := by
  induction ends generalizing left with
  | atHand given =>
      rw [resolveWithin_of_given given]
      exact ⟨rfl, rfl⟩
  | stopped asks =>
      obtain rfl : left = 0 := by omega
      rw [resolveWithin_zero_of_asks asks]
      exact ⟨rfl, rfl⟩
  | @answered asked _ _ _ asks free rest ih =>
      obtain ⟨left, rfl⟩ : ∃ fewer, left = fewer + 1 := ⟨left - 1, by omega⟩
      have fewer : asked + 1 + left = greatestAnswers := by omega
      obtain ⟨sameTotal, sameOutcome⟩ := ih fewer
      rw [resolveWithin_succ_of_asks asks]
      exact ⟨by omega, sameOutcome⟩

/-- Every resolution comes to an end, also where the answers do not. -/
theorem ends_iff : Ends 0 ref total outcome ↔ total = ref.answersAsked ∧ outcome = ref.resolve := by
  have room : 0 + greatestAnswers = greatestAnswers := Nat.zero_add _
  constructor
  · intro ends
    obtain ⟨sameTotal, sameOutcome⟩ := ends.eq_resolveWithin room
    rw [Nat.zero_add] at sameTotal
    exact ⟨sameTotal, sameOutcome⟩
  · rintro ⟨rfl, rfl⟩
    have ends := ends_resolveWithin room ref
    rwa [Nat.zero_add] at ends

/-! The answers that a type takes. -/

/-- How many answers lead to a type at hand. -/
def layers : TypeRef → ℕ∞
  | .named _ | .described _ => 0
  | .deferred answer => answer.layers + 1
  | .endless => ⊤

/-- What the type at hand says after all answers. A name alone says nothing else. -/
def innermost? : TypeRef → Option TypeDescription
  | .named name => some { name := some name }
  | .described description => some description
  | .deferred answer => answer.innermost?
  | .endless => none

/-- The type as the last of a number of answers. -/
def wrapped : (answers : Nat) → TypeRef → TypeRef
  | 0, ref => ref
  | answers + 1, ref => .deferred (wrapped answers ref)

theorem layers_wrapped (answers : Nat) (ref : TypeRef) :
    (ref.wrapped answers).layers = answers + ref.layers := by
  induction answers with
  | zero => rw [wrapped, Nat.cast_zero, zero_add]
  | succ answers ih => rw [wrapped, layers, ih, Nat.cast_succ, add_right_comm]

theorem innermost?_wrapped (answers : Nat) (ref : TypeRef) :
    (ref.wrapped answers).innermost? = ref.innermost? := by
  induction answers with
  | zero => rfl
  | succ answers ih => rw [wrapped, innermost?, ih]

theorem innermost?_eq_none_iff : ref.innermost? = none ↔ ref.layers = ⊤ := by
  induction ref with
  | named | described => simp [innermost?, layers]
  | deferred answer ih => simpa [innermost?, layers] using ih
  | endless => simp [innermost?, layers]

theorem exists_innermost (within : ref.layers ≤ 2) :
    ∃ description, ref.innermost? = some description := by
  refine Option.ne_none_iff_exists'.mp fun absent => ?_
  simp [innermost?_eq_none_iff.mp absent] at within

theorem answers_resolveWithin (left : Nat) (ref : TypeRef) :
    ((resolveWithin left ref).2 : ℕ∞) = min ref.layers left := by
  induction left generalizing ref with
  | zero =>
      cases ref with
      | named | described | deferred | endless => simp [resolveWithin]
  | succ left ih =>
      cases ref with
      | named | described => simp [resolveWithin, layers]
      | deferred answer =>
          simp only [resolveWithin, layers, Nat.cast_succ, ih, min_add_add_right]
      | endless => simp [resolveWithin, layers, ih]

theorem description?_after_of_le (left : Nat) (ref : TypeRef) (within : ref.layers ≤ left) :
    (after left ref).description? = ref.innermost? := by
  induction left generalizing ref with
  | zero =>
      cases ref with
      | named | described => rfl
      | deferred | endless => simp [layers] at within
  | succ left ih =>
      cases ref with
      | named name => exact ih (.named name) zero_le
      | described description => exact ih (.described description) zero_le
      | deferred answer => exact ih answer (by simpa [layers] using within)
      | endless => simp [layers] at within

theorem description?_after_of_lt (left : Nat) (ref : TypeRef) (beyond : left < ref.layers) :
    (after left ref).description? = none := by
  induction left generalizing ref with
  | zero =>
      cases ref with
      | named | described => simp [layers] at beyond
      | deferred | endless => rfl
  | succ left ih =>
      cases ref with
      | named | described => simp [layers] at beyond
      | deferred answer => exact ih answer (by simpa [layers] using beyond)
      | endless => exact ih .endless (ENat.natCast_lt_top left)

theorem resolve_of_le (within : ref.layers ≤ 2) (innermost : ref.innermost? = some description) :
    ref.resolve = description.resolve := by
  have atHand : ref.ask.ask.description? = some description :=
    (description?_after_of_le 2 ref within).trans innermost
  rw [resolve_eq, atHand]

theorem resolve_of_lt (beyond : 2 < ref.layers) : ref.resolve = .error .diverged := by
  have asks : ref.ask.ask.description? = none := description?_after_of_lt 2 ref beyond
  rw [resolve_eq, asks]

theorem resolve_eq_diverged_iff : ref.resolve = .error .diverged ↔ 2 < ref.layers := by
  refine ⟨fun diverged => lt_of_not_ge fun within => ?_, resolve_of_lt⟩
  obtain ⟨description, innermost⟩ := exists_innermost within
  rw [resolve_of_le within innermost, TypeDescription.resolve_error_iff] at diverged
  cases diverged.1

/-- Resolving comes to an end after as many answers as the type takes, but after two at most. It
fails as diverged where the type takes more, and else follows the type at hand: without a name
there is none, and with one the name and what is said besides are kept. So answers around a type
change nothing within the bound. -/
theorem resolve_by_layers (ref : TypeRef) :
    (∀ total outcome, Ends 0 ref total outcome ↔
      total = ref.answersAsked ∧ outcome = ref.resolve) ∧
    (ref.answersAsked : ℕ∞) = min ref.layers 2 ∧
    (ref.resolve = .error .diverged ↔ 2 < ref.layers) ∧
    (ref.layers ≤ 2 → ∃ description, ref.innermost? = some description ∧
      (ref.resolve = .error .missing ↔
        description.name = none ∨ description.name = some "") ∧
      ∀ name, description.name = some name → name ≠ "" → ∃ resolved,
        ref.resolve = .ok resolved ∧
        resolved.name = name ∧ resolved.type = .ofText name ∧
        resolved.values = description.values ∧ resolved.precision = description.precision ∧
        resolved.max = description.max ∧ resolved.format = description.format) ∧
    ∀ answers : Nat, answers + ref.layers ≤ 2 → (ref.wrapped answers).resolve = ref.resolve := by
  refine ⟨fun total outcome => ends_iff, answers_resolveWithin greatestAnswers ref,
    resolve_eq_diverged_iff, ?_, ?_⟩
  · intro within
    obtain ⟨description, innermost⟩ := exists_innermost within
    refine ⟨description, innermost, ?_⟩
    rw [resolve_of_le within innermost]
    refine ⟨by simp [TypeDescription.resolve_error_iff], fun name named known => ?_⟩
    refine ⟨⟨name, description.values, description.precision, description.max,
      description.format⟩, ?_, rfl, rfl, rfl, rfl, rfl, rfl⟩
    exact TypeDescription.resolve_ok_iff.mpr
      ⟨by rw [ResolvedType.description, ← named], known⟩
  · intro answers within
    have inner : ref.layers ≤ 2 := le_add_self.trans within
    obtain ⟨description, innermost⟩ := exists_innermost inner
    rw [← layers_wrapped] at within
    rw [resolve_of_le inner innermost,
      resolve_of_le within ((innermost?_wrapped answers ref).trans innermost)]

/-- A text of limited length, behind one answer. -/
def askedText : TypeRef := .deferred (.described { name := some "string", max := some 32 })

theorem resolve_by_layers_askedText :
    askedText.layers ≤ 2 ∧ (1 : Nat) + askedText.layers ≤ 2 ∧ askedText.answersAsked = 1 ∧
      (∃ resolved, askedText.resolve = .ok resolved ∧ resolved.name = "string" ∧
        resolved.max = some 32) ∧
      (askedText.wrapped 1).resolve = askedText.resolve := by
  have once : askedText.layers = 1 := zero_add 1
  have within : askedText.layers ≤ 2 := by
    rw [once]
    exact one_le_two
  have again : (1 : Nat) + askedText.layers ≤ 2 := by
    rw [once, Nat.cast_one, one_add_one_eq_two]
  obtain ⟨_, answers, _, settled, wrapping⟩ := resolve_by_layers askedText
  obtain ⟨description, innermost, _, found⟩ := settled within
  obtain rfl := Option.some.inj innermost
  obtain ⟨resolved, resolution, name, _, _, _, max, _⟩ := found "string" rfl (by decide)
  refine ⟨within, again, ?_, ⟨resolved, resolution, name, max⟩, wrapping 1 again⟩
  rw [once, min_eq_left one_le_two] at answers
  exact_mod_cast answers

end FieldRules.TypeRef
