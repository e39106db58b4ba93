import FieldRules.Proofs.Attribute.OwnRefinements
import FieldRules.Proofs.ModelRules.Schema
import Mathlib.Data.List.Basic

namespace FieldRules.Draft7

/-! The texts that a pattern stands for, whatever way is taken to look for them. -/

namespace Pattern

def Matches : Pattern → List Char → Prop
  | .one set, text => ∃ c, text = [c] ∧ set.accepts c
  | .exactly count set, text => text.length = count ∧ ∀ c ∈ text, set.accepts c
  | .many set, text => text ≠ [] ∧ ∀ c ∈ text, set.accepts c
  | .optional part, text => part.Matches text ∨ text = []
  | .either first second, text => first.Matches text ∨ second.Matches text
  | .sequence first second, text =>
      ∃ start rest, text = start ++ rest ∧ first.Matches start ∧ second.Matches rest

variable {set : CharSet} {text rest : List Char}

theorem mem_afterExactly_iff {count : Nat} :
    rest ∈ afterExactly set count text ↔
      ∃ start, text = start ++ rest ∧ (Pattern.exactly count set).Matches start := by
  induction count generalizing text with
  | zero =>
      constructor
      · intro member
        obtain rfl : rest = text := by simpa [afterExactly] using member
        exact ⟨[], rfl, rfl, List.forall_mem_nil _⟩
      · rintro ⟨start, rfl, none, -⟩
        obtain rfl := List.length_eq_zero_iff.mp none
        exact List.mem_singleton_self rest
  | succ count ih =>
      cases text with
      | nil =>
          constructor
          · intro member
            cases member
          · rintro ⟨start, split, length, -⟩
            obtain ⟨rfl, -⟩ := List.append_eq_nil_iff.mp split.symm
            cases length
      | cons c others =>
          by_cases accepted : set.accepts c
          · rw [afterExactly, if_pos accepted, ih]
            constructor
            · rintro ⟨start, rfl, length, each⟩
              refine ⟨c :: start, rfl, congrArg Nat.succ length, ?_⟩
              exact List.forall_mem_cons.mpr ⟨accepted, each⟩
            · rintro ⟨start, split, length, each⟩
              cases start with
              | nil => cases length
              | cons first start =>
                  obtain ⟨rfl, rfl⟩ := List.cons.inj split
                  exact ⟨start, rfl, Nat.succ.inj length, (List.forall_mem_cons.mp each).2⟩
          · rw [afterExactly, if_neg accepted]
            constructor
            · intro member
              cases member
            · rintro ⟨start, split, length, each⟩
              cases start with
              | nil => cases length
              | cons first start =>
                  obtain ⟨rfl, rfl⟩ := List.cons.inj split
                  exact absurd (each c List.mem_cons_self) accepted

theorem mem_afterMany_iff :
    rest ∈ afterMany set text ↔
      ∃ start, text = start ++ rest ∧ (Pattern.many set).Matches start := by
  induction text with
  | nil =>
      constructor
      · intro member
        cases member
      · rintro ⟨start, split, nonempty, -⟩
        exact absurd (List.append_eq_nil_iff.mp split.symm).1 nonempty
  | cons c others ih =>
      by_cases accepted : set.accepts c
      · rw [afterMany, if_pos accepted, List.mem_cons, ih]
        constructor
        · rintro (rfl | ⟨start, rfl, -, each⟩)
          · exact ⟨[c], rfl, List.cons_ne_nil _ _, List.forall_mem_singleton.mpr accepted⟩
          · exact ⟨c :: start, rfl, List.cons_ne_nil _ _,
              List.forall_mem_cons.mpr ⟨accepted, each⟩⟩
        · rintro ⟨start, split, nonempty, each⟩
          cases start with
          | nil => exact absurd rfl nonempty
          | cons first start =>
              obtain ⟨rfl, rfl⟩ := List.cons.inj split
              by_cases last : start = []
              · subst last
                exact Or.inl rfl
              · exact Or.inr ⟨start, rfl, last, (List.forall_mem_cons.mp each).2⟩
      · rw [afterMany, if_neg accepted]
        constructor
        · intro member
          cases member
        · rintro ⟨start, split, nonempty, each⟩
          cases start with
          | nil => exact absurd rfl nonempty
          | cons first start =>
              obtain ⟨rfl, rfl⟩ := List.cons.inj split
              exact absurd (each c List.mem_cons_self) accepted

theorem matches_one_iff :
    (Pattern.one set).Matches text ↔ (Pattern.exactly 1 set).Matches text := by
  constructor
  · rintro ⟨c, rfl, accepted⟩
    exact ⟨rfl, List.forall_mem_singleton.mpr accepted⟩
  · rintro ⟨length, each⟩
    obtain ⟨c, rfl⟩ := List.length_eq_one_iff.mp length
    exact ⟨c, rfl, each c List.mem_cons_self⟩

/-- What can be left of a text comes after a start that the pattern stands for. -/
theorem mem_after_iff (pattern : Pattern) :
    rest ∈ pattern.after text ↔ ∃ start, text = start ++ rest ∧ pattern.Matches start := by
  induction pattern generalizing text rest with
  | one set =>
      simp only [matches_one_iff]
      exact mem_afterExactly_iff
  | exactly count set => exact mem_afterExactly_iff
  | many set => exact mem_afterMany_iff
  | optional part ih =>
      rw [after, List.mem_append, List.mem_singleton, ih]
      constructor
      · rintro (⟨start, rfl, matched⟩ | rfl)
        · exact ⟨start, rfl, Or.inl matched⟩
        · exact ⟨[], rfl, Or.inr rfl⟩
      · rintro ⟨start, rfl, matched | rfl⟩
        · exact Or.inl ⟨start, rfl, matched⟩
        · exact Or.inr rfl
  | either first second ihFirst ihSecond =>
      rw [after, List.mem_append, ihFirst, ihSecond, ← exists_or]
      apply exists_congr
      intro start
      exact and_or_left.symm
  | sequence first second ihFirst ihSecond =>
      rw [after, List.mem_flatMap]
      constructor
      · rintro ⟨middle, inFirst, inSecond⟩
        obtain ⟨start, rfl, firstMatched⟩ := ihFirst.mp inFirst
        obtain ⟨next, rfl, secondMatched⟩ := ihSecond.mp inSecond
        exact ⟨start ++ next, (List.append_assoc start next rest).symm, start, next, rfl,
          firstMatched, secondMatched⟩
      · rintro ⟨_, rfl, start, next, rfl, firstMatched, secondMatched⟩
        refine ⟨next ++ rest, ?_, ?_⟩
        · exact ihFirst.mpr ⟨start, List.append_assoc start next rest, firstMatched⟩
        · exact ihSecond.mpr ⟨next, rfl, secondMatched⟩

theorem accepts_iff_matches (pattern : Pattern) (text : String) :
    pattern.accepts text = true ↔ pattern.Matches text.toList := by
  rw [accepts, List.any_eq_true]
  constructor
  · rintro ⟨rest, member, ended⟩
    obtain rfl := List.isEmpty_iff.mp ended
    obtain ⟨start, split, matched⟩ := pattern.mem_after_iff.mp member
    rwa [split, List.append_nil]
  · intro matched
    exact ⟨[], pattern.mem_after_iff.mpr ⟨_, (List.append_nil _).symm, matched⟩, rfl⟩

theorem matches_ofList_cons {part : Pattern} {parts : List Pattern} (more : parts ≠ []) :
    (ofList (part :: parts)).Matches text ↔
      ∃ start rest, text = start ++ rest ∧ part.Matches start ∧ (ofList parts).Matches rest := by
  cases parts with
  | nil => exact absurd rfl more
  | cons next others => exact Iff.rfl

theorem matches_ofList_append {parts others : List Pattern} (nonempty : parts ≠ [])
    (more : others ≠ []) :
    (ofList (parts ++ others)).Matches text ↔
      ∃ start rest, text = start ++ rest ∧ (ofList parts).Matches start ∧
        (ofList others).Matches rest := by
  induction parts generalizing text with
  | nil => exact absurd rfl nonempty
  | cons part parts ih =>
      cases parts with
      | nil => exact matches_ofList_cons more
      | cons next parts =>
          have isMore : next :: parts ≠ [] := List.cons_ne_nil _ _
          rw [List.cons_append, matches_ofList_cons (List.append_ne_nil_of_left_ne_nil isMore _)]
          simp only [ih isMore, matches_ofList_cons isMore]
          constructor
          · rintro ⟨first, _, rfl, here, start, rest, rfl, matched, matchedOthers⟩
            exact ⟨first ++ start, rest, (List.append_assoc first start rest).symm,
              ⟨first, start, rfl, here, matched⟩, matchedOthers⟩
          · rintro ⟨_, rest, rfl, ⟨first, start, rfl, here, matched⟩, matchedOthers⟩
            exact ⟨first, start ++ rest, List.append_assoc first start rest, here, start, rest,
              rfl, matched, matchedOthers⟩

end Pattern

end FieldRules.Draft7

namespace FieldRules

open Draft7

/-! Which texts a field of identifiers takes. Its pattern looks at both ends of a text apart from
each other, so an opening brace does not have to be closed. -/

namespace Guid

def IsHexDigit (c : Char) : Prop :=
  ('0' ≤ c ∧ c ≤ '9') ∨ ('a' ≤ c ∧ c ≤ 'f') ∨ ('A' ≤ c ∧ c ≤ 'F')

/-- Groups of so many digits each, with or without a hyphen between two of them. -/
inductive Groups : (counts : List Nat) → (text : List Char) → Prop
  | last {count : Nat} {digits : List Char} (length : digits.length = count)
      (hex : ∀ c ∈ digits, IsHexDigit c) : Groups [count] digits
  | next {count : Nat} {counts : List Nat} {digits rest : List Char}
      (length : digits.length = count) (hex : ∀ c ∈ digits, IsHexDigit c)
      (others : Groups counts rest) : Groups (count :: counts) (digits ++ rest)
  | hyphen {count : Nat} {counts : List Nat} {digits rest : List Char}
      (length : digits.length = count) (hex : ∀ c ∈ digits, IsHexDigit c)
      (others : Groups counts rest) : Groups (count :: counts) (digits ++ '-' :: rest)

abbrev counts : List Nat := [8, 4, 4, 4, 12]

abbrev openings : List (List Char) := [[], ['{'], ['(']]

abbrev closings : List (List Char) := [[], ['}'], [')']]

/-- An identifier's digits, alone or in braces or parentheses. -/
def IsGuid (text : List Char) : Prop :=
  ∃ digits, Groups counts digits ∧
    (text = digits ∨ text = '{' :: digits ++ ['}'] ∨ text = '(' :: digits ++ [')'])

/-- A text that begins with a brace ends with its partner and the other way around. -/
def Paired (text : List Char) : Prop :=
  (text.head? = some '{' ↔ text.getLast? = some '}') ∧
  (text.head? = some '(' ↔ text.getLast? = some ')')

instance (text : List Char) : Decidable (Paired text) := inferInstanceAs (Decidable (_ ∧ _))

variable {text digits : List Char}

theorem hexDigit_accepts_iff {c : Char} :
    CharSet.hexDigit.accepts c = true ↔ IsHexDigit c := by
  simp [CharSet.accepts, Char.isDigit, IsHexDigit, Char.le_def, or_assoc]

theorem matches_exactly_iff {count : Nat} :
    (Pattern.exactly count .hexDigit).Matches text ↔
      text.length = count ∧ ∀ c ∈ text, IsHexDigit c := by
  simp only [Pattern.Matches, hexDigit_accepts_iff]

def hyphen : Pattern := .optional (.one (.only '-'))

theorem matches_hyphen_iff : hyphen.Matches text ↔ text = ['-'] ∨ text = [] := by
  simp [hyphen, Pattern.Matches, CharSet.accepts]

/-- The parts of a pattern that stand for groups of digits. -/
def groupParts : (counts : List Nat) → List Pattern
  | [] => []
  | [count] => [.exactly count .hexDigit]
  | count :: next :: counts =>
      .exactly count .hexDigit :: hyphen :: groupParts (next :: counts)

theorem groupParts_ne_nil (count : Nat) (counts : List Nat) :
    groupParts (count :: counts) ≠ [] := by
  cases counts with
  | nil => exact List.cons_ne_nil _ _
  | cons next counts => exact List.cons_ne_nil _ _

theorem not_groups_nil : ¬ Groups [] text := nofun

theorem matches_groupParts_iff {count : Nat} {counts : List Nat} :
    (Pattern.ofList (groupParts (count :: counts))).Matches text ↔
      Groups (count :: counts) text := by
  induction counts generalizing count text with
  | nil =>
      refine matches_exactly_iff.trans ⟨fun ⟨length, hex⟩ => .last length hex, ?_⟩
      intro groups
      cases groups with
      | last length hex => exact ⟨length, hex⟩
      | next _ _ others => exact absurd others not_groups_nil
      | hyphen _ _ others => exact absurd others not_groups_nil
  | cons next counts ih =>
      rw [groupParts, Pattern.matches_ofList_cons (List.cons_ne_nil _ _)]
      simp only [Pattern.matches_ofList_cons (groupParts_ne_nil next counts), ih,
        matches_exactly_iff, matches_hyphen_iff]
      constructor
      · rintro ⟨digits, _, rfl, ⟨length, hex⟩, mark, rest, rfl, rfl | rfl, others⟩
        · exact .hyphen length hex others
        · exact .next length hex others
      · intro groups
        cases groups with
        | next length hex others =>
            exact ⟨_, _, rfl, ⟨length, hex⟩, [], _, rfl, Or.inr rfl, others⟩
        | hyphen length hex others =>
            exact ⟨_, _, rfl, ⟨length, hex⟩, ['-'], _, rfl, Or.inl rfl, others⟩

theorem guid_eq :
    Pattern.guid = .ofList (.optional (.one (.among ['{', '('])) ::
      (groupParts counts ++ [.optional (.one (.among ['}', ')']))])) := rfl

theorem matches_end_iff {first second : Char} :
    (Pattern.optional (.one (.among [first, second]))).Matches text ↔
      text ∈ [[], [first], [second]] := by
  simp only [Pattern.Matches, CharSet.accepts, List.contains_iff_mem, List.mem_cons,
    List.not_mem_nil, or_false]
  constructor
  · rintro (⟨c, rfl, rfl | rfl⟩ | rfl)
    · exact Or.inr (Or.inl rfl)
    · exact Or.inr (Or.inr rfl)
    · exact Or.inl rfl
  · rintro (rfl | rfl | rfl)
    · exact Or.inr rfl
    · exact Or.inl ⟨first, rfl, Or.inl rfl⟩
    · exact Or.inl ⟨second, rfl, Or.inr rfl⟩

/-- The pattern asks for the digits and takes any brace or none at each end. -/
theorem matches_guid_iff :
    Pattern.guid.Matches text ↔
      ∃ opening ∈ openings, ∃ closing ∈ closings, ∃ digits,
        Groups counts digits ∧ text = opening ++ digits ++ closing := by
  rw [guid_eq, Pattern.matches_ofList_cons (by simp [groupParts])]
  simp only [Pattern.matches_ofList_append (groupParts_ne_nil 8 [4, 4, 4, 12])
    (List.cons_ne_nil _ []), matches_groupParts_iff]
  constructor
  · rintro ⟨opening, _, rfl, isOpening, digits, closing, rfl, groups, isClosing⟩
    exact ⟨opening, matches_end_iff.mp isOpening, closing, matches_end_iff.mp isClosing, digits,
      groups, (List.append_assoc opening digits closing).symm⟩
  · rintro ⟨opening, isOpening, closing, isClosing, digits, groups, rfl⟩
    exact ⟨opening, digits ++ closing, List.append_assoc opening digits closing,
      matches_end_iff.mpr isOpening, digits, closing, rfl, groups, matches_end_iff.mpr isClosing⟩

/-! Groups begin and end with a digit, so a brace at either end is not one of theirs. -/

theorem Groups.head {counts : List Nat} (groups : Groups counts digits)
    (positive : ∀ count ∈ counts, 0 < count) :
    ∃ c rest, digits = c :: rest ∧ IsHexDigit c := by
  have begins : ∀ {count : Nat} {group : List Char}, count ∈ counts → group.length = count →
      (∀ c ∈ group, IsHexDigit c) → ∃ c rest, group = c :: rest ∧ IsHexDigit c := by
    intro count group member length hex
    have some := positive count member
    cases group with
    | nil => exact absurd length.symm (Nat.ne_of_gt some)
    | cons c rest => exact ⟨c, rest, rfl, hex c List.mem_cons_self⟩
  cases groups with
  | last length hex => exact begins List.mem_cons_self length hex
  | next length hex others =>
      obtain ⟨c, rest, rfl, isHex⟩ := begins List.mem_cons_self length hex
      exact ⟨c, _, rfl, isHex⟩
  | hyphen length hex others =>
      obtain ⟨c, rest, rfl, isHex⟩ := begins List.mem_cons_self length hex
      exact ⟨c, _, rfl, isHex⟩

theorem Groups.last_digit {counts : List Nat} (groups : Groups counts digits)
    (positive : ∀ count ∈ counts, 0 < count) :
    ∃ start c, digits = start ++ [c] ∧ IsHexDigit c := by
  induction groups with
  | @last count digits length hex =>
      have nonempty : digits ≠ [] := by
        rintro rfl
        exact absurd length.symm (Nat.ne_of_gt (positive count List.mem_cons_self))
      refine ⟨digits.dropLast, digits.getLast nonempty, ?_, hex _ (List.getLast_mem nonempty)⟩
      exact (List.dropLast_concat_getLast nonempty).symm
  | @next _ _ digits _ _ _ _ ih =>
      obtain ⟨start, c, rfl, isHex⟩ := ih fun count member =>
        positive count (List.mem_cons_of_mem _ member)
      exact ⟨digits ++ start, c, (List.append_assoc _ _ _).symm, isHex⟩
  | @hyphen _ _ digits _ _ _ _ ih =>
      obtain ⟨start, c, rfl, isHex⟩ := ih fun count member =>
        positive count (List.mem_cons_of_mem _ member)
      exact ⟨digits ++ '-' :: start, c, by simp, isHex⟩

theorem IsHexDigit.ne {c mark : Char} (isHex : IsHexDigit c)
    (isMark : mark ∈ ['{', '(', '}', ')']) : c ≠ mark := by
  rintro rfl
  simp only [List.mem_cons, List.not_mem_nil, or_false] at isMark
  rw [IsHexDigit] at isHex
  rcases isMark with rfl | rfl | rfl | rfl
  · exact absurd isHex (by decide)
  · exact absurd isHex (by decide)
  · exact absurd isHex (by decide)
  · exact absurd isHex (by decide)

theorem opens_iff {first : Char} (isHex : IsHexDigit first) {opening : List Char}
    (isOpening : opening ∈ openings) :
    (opening.head?.or (some first) = some '{' ↔ opening = ['{']) ∧
      (opening.head?.or (some first) = some '(' ↔ opening = ['(']) := by
  simp only [List.mem_cons, List.not_mem_nil, or_false] at isOpening
  rcases isOpening with rfl | rfl | rfl
  · simp [isHex.ne]
  · simp
  · simp

theorem closes_iff {last : Char} (isHex : IsHexDigit last) {closing : List Char}
    (isClosing : closing ∈ closings) :
    (closing.getLast?.or (some last) = some '}' ↔ closing = ['}']) ∧
      (closing.getLast?.or (some last) = some ')' ↔ closing = [')']) := by
  simp only [List.mem_cons, List.not_mem_nil, or_false] at isClosing
  rcases isClosing with rfl | rfl | rfl
  · simp [isHex.ne]
  · simp
  · simp

theorem Groups.paired_iff (groups : Groups counts digits) {opening closing : List Char}
    (isOpening : opening ∈ openings) (isClosing : closing ∈ closings) :
    Paired (opening ++ digits ++ closing) ↔
      (opening = ['{'] ↔ closing = ['}']) ∧ (opening = ['('] ↔ closing = [')']) := by
  have positive : ∀ count ∈ counts, 0 < count := by decide
  obtain ⟨first, rest, begins, isHex⟩ := groups.head positive
  obtain ⟨start, last, ends, isLastHex⟩ := groups.last_digit positive
  have isFirst : digits.head? = some first := by rw [begins, List.head?_cons]
  have isLast : digits.getLast? = some last := by rw [ends, List.getLast?_concat]
  have head : (opening ++ digits ++ closing).head? = opening.head?.or (some first) := by
    simp [List.head?_append, isFirst]
  have getLast : (opening ++ digits ++ closing).getLast? = closing.getLast?.or (some last) := by
    simp [List.getLast?_append, isLast]
  obtain ⟨openBrace, openParenthesis⟩ := opens_iff isHex isOpening
  obtain ⟨closeBrace, closeParenthesis⟩ := closes_iff isLastHex isClosing
  rw [Paired, head, getLast, openBrace, openParenthesis, closeBrace, closeParenthesis]

/-- Of the texts that the pattern stands for, those with a pair at their ends or nothing are
identifiers. -/
theorem isGuid_iff : IsGuid text ↔ Pattern.guid.Matches text ∧ Paired text := by
  rw [matches_guid_iff]
  constructor
  · rintro ⟨digits, groups, enclosed⟩
    obtain ⟨opening, isOpening, closing, isClosing, rfl, pair⟩ : ∃ opening ∈ openings,
        ∃ closing ∈ closings, text = opening ++ digits ++ closing ∧
          (opening = ['{'] ↔ closing = ['}']) ∧ (opening = ['('] ↔ closing = [')']) := by
      rcases enclosed with rfl | rfl | rfl
      · exact ⟨[], by simp, [], by simp, (List.append_nil _).symm, by simp⟩
      · exact ⟨['{'], by simp, ['}'], by simp, rfl, by simp⟩
      · exact ⟨['('], by simp, [')'], by simp, rfl, by simp⟩
    exact ⟨⟨opening, isOpening, closing, isClosing, digits, groups, rfl⟩,
      (groups.paired_iff isOpening isClosing).mpr pair⟩
  · rintro ⟨⟨opening, isOpening, closing, isClosing, digits, groups, rfl⟩, paired⟩
    rw [groups.paired_iff isOpening isClosing] at paired
    refine ⟨digits, groups, ?_⟩
    simp only [List.mem_cons, List.not_mem_nil, or_false] at isOpening isClosing
    rcases isOpening with rfl | rfl | rfl
    · obtain rfl : closing = [] := isClosing.resolve_right (by simpa using paired)
      simp
    · obtain rfl : closing = ['}'] := paired.1.mp rfl
      simp
    · obtain rfl : closing = [')'] := paired.2.mp rfl
      simp

/-- An engine takes the expression for the pattern that it is written for. -/
def ReadBy (engine : Engine) : Prop :=
  ∀ text, engine.finds Pattern.guid.source text = true ↔ Pattern.guid.Matches text.toList

example : Pattern.guid.source =
    "^[\x7b(]?[0-9a-fA-F]\x7b8\x7d-?[0-9a-fA-F]\x7b4\x7d-?[0-9a-fA-F]\x7b4\x7d"
      ++ "-?[0-9a-fA-F]\x7b4\x7d-?[0-9a-fA-F]\x7b12\x7d[\x7d)]?$" := by decide

theorem readBy_draft7 : ReadBy .draft7 := by
  intro text
  have differ : Pattern.iso8601.source ≠ Pattern.guid.source := by decide
  rw [← Pattern.accepts_iff_matches]
  simp [Engine.draft7, differ]

end Guid

namespace Attribute

variable {attr : Attribute} {resolved : ResolvedType}

theorem compile_uuid (standard : attr.override = none) (required : attr.allowNull = some false)
    (resolves : attr.ResolvesTo resolved) (isUuid : resolved.name = "uuid")
    (modelName key : String) :
    ∃ validator type, attr.compile modelName key = .ok (validator, type) ∧
      validator.rule = .string none true ∧ validator.allow = [] ∧ validator.valid = none := by
  have unlisted : resolved.name ≠ "enum" := by simp [isUuid]
  have rule : attr.rule resolved = .string none true := by
    rw [Attribute.rule, isUuid]
    rfl
  rw [resolves.compile_eq, standard?_eq, if_neg unlisted, if_pos required, rule, standard]
  exact ⟨_, _, rfl, rfl, rfl, rfl⟩

/-- The schema of a field of identifiers accepts their digits with any brace or none at either
end. Those texts among them are identifiers whose ends make a pair, or have no brace. -/
theorem uuid_accepts_iff (standard : attr.override = none) (required : attr.allowNull = some false)
    (resolves : attr.ResolvesTo resolved) (isUuid : resolved.name = "uuid")
    (modelName key : String) :
    ∃ validator type, attr.compile modelName key = .ok (validator, type) ∧
      ∀ (engine : Engine) (extensions : Bool), Guid.ReadBy engine → ∀ text : String,
        (engine.satisfies (validator.schema extensions).toJson (.string text) = true ↔
          ∃ opening ∈ Guid.openings, ∃ closing ∈ Guid.closings, ∃ digits,
            Guid.Groups Guid.counts digits ∧ text.toList = opening ++ digits ++ closing) ∧
        (Guid.IsGuid text.toList ↔
          engine.satisfies (validator.schema extensions).toJson (.string text) = true ∧
            Guid.Paired text.toList) := by
  obtain ⟨validator, type, compiled, rule, allow, valid⟩ :=
    compile_uuid standard required resolves isUuid modelName key
  refine ⟨validator, type, compiled, fun engine extensions reads text => ?_⟩
  have accepts : engine.satisfies (validator.schema extensions).toJson (.string text) = true ↔
      Pattern.guid.Matches text.toList := by
    rw [satisfies_compiled compiled standard, Validator.admits_eq, rule, allow, valid, ← reads]
    rfl
  rw [accepts]
  exact ⟨Guid.matches_guid_iff, Guid.isGuid_iff⟩

def orderId : Attribute := { type := some (.named "uuid"), allowNull := some false }

def bracedText : String := "\x7b01234567-89abCDEF-0123-456789abcdef\x7d"

theorem uuid_accepts_iff_braced :
    orderId.override = none ∧ orderId.allowNull = some false ∧
      ∃ validator type, orderId.compile "Order" "id" = .ok (validator, type) ∧
        Engine.draft7.satisfies (validator.schema true).toJson (.string bracedText) = true ∧
        Guid.IsGuid bracedText.toList := by
  have resolves : orderId.ResolvesTo (.bare "uuid") := ⟨.named "uuid", rfl, rfl⟩
  obtain ⟨validator, type, compiled, accepts⟩ :=
    uuid_accepts_iff rfl rfl resolves rfl "Order" "id"
  have matched : Pattern.guid.Matches bracedText.toList :=
    (Pattern.accepts_iff_matches _ _).mp (by decide)
  obtain ⟨accepted, isGuid⟩ := accepts .draft7 true Guid.readBy_draft7 bracedText
  have taken := accepted.mpr (Guid.matches_guid_iff.mp matched)
  exact ⟨rfl, rfl, validator, type, compiled, taken,
    isGuid.mpr ⟨taken, by decide⟩⟩

def openText : String := "\x7b01234567-89ab-cdef-0123-456789abcdef"

theorem openText_accepted :
    ∃ validator type, orderId.compile "Order" "id" = .ok (validator, type) ∧
      Engine.draft7.satisfies (validator.schema true).toJson (.string openText) = true ∧
      ¬ Guid.IsGuid openText.toList := by
  have resolves : orderId.ResolvesTo (.bare "uuid") := ⟨.named "uuid", rfl, rfl⟩
  obtain ⟨validator, type, compiled, rule, allow, valid⟩ :=
    compile_uuid rfl rfl resolves rfl "Order" "id"
  refine ⟨validator, type, compiled, ?_, ?_⟩
  · rw [satisfies_compiled compiled rfl, Validator.admits_eq, rule, allow, valid]
    exact (Guid.readBy_draft7 openText).mpr
      ((Pattern.accepts_iff_matches _ _).mp (by decide))
  · rw [Guid.isGuid_iff]
    rintro ⟨-, paired⟩
    revert paired
    decide

end Attribute

end FieldRules
