import FieldRules.Proofs.Toml.Quoted
import FieldRules.Toml.Reader

namespace FieldRules.Toml

open Text

/-! A document is read line by line: a header opens a table, and a key with its value goes into
the table that was opened last. -/

variable {c : Char} {bare text rest : List Char} {progress next : Progress}

/-- A character that stands neither for a blank nor for a line end or a comment. -/
structure Shown (c : Char) : Prop where
  notBlank : isBlank c = false
  notNewline : c ≠ '\n'
  notReturn : c ≠ '\r'
  notHash : c ≠ '#'

theorem skipBlanks_cons (notBlank : isBlank c = false) : skipBlanks (c :: rest) = c :: rest := by
  simp [skipBlanks, notBlank]

namespace Shown

theorem skipComment_cons (shown : Shown c) : skipComment (c :: rest) = c :: rest := by
  simp [skipComment, skipBlanks_cons shown.notBlank, shown.notHash]

theorem skipLines_cons (shown : Shown c) (lines : Nat) :
    skipLines lines (c :: rest) = c :: rest := by
  cases lines with
  | zero => exact skipBlanks_cons shown.notBlank
  | succ lines =>
      rw [skipLines, shown.skipComment_cons, lineEnd?_eq_none shown.notNewline shown.notReturn]

theorem skipLines_newline (shown : Shown c) (lines : Nat) :
    skipLines (lines + 1) ('\n' :: c :: rest) = c :: rest := by
  have ended : lineEnd? (skipComment ('\n' :: c :: rest)) = some (c :: rest) := rfl
  rw [skipLines, ended]
  exact shown.skipLines_cons lines

end Shown

theorem lines_cons (begins : skipLines text.length text = c :: rest)
    {after : List Char} (read : line progress (c :: rest) = some (next, '\n' :: after))
    (fuel : Nat) : lines (fuel + 1) progress text = lines fuel next after := by
  have ended : skipComment ('\n' :: after) = '\n' :: after := rfl
  rw [lines, begins]
  simp only [read, ended, lineEnd?]

theorem lines_nil (fuel : Nat) (progress : Progress) :
    lines (fuel + 1) progress [] = some progress.root := rfl

theorem Shown.of_isBareKeyChar (isBare : isBareKeyChar c) : Shown c where
  notBlank := by
    by_contra blank
    have spaceOrTab : c = ' ' ∨ c = '\t' := by
      simpa [isBlank, Classical.or_iff_not_imp_left] using blank
    rcases spaceOrTab with rfl | rfl
    · exact absurd isBare (by decide)
    · exact absurd isBare (by decide)
  notNewline := by rintro rfl; revert isBare; decide
  notReturn := by rintro rfl; revert isBare; decide
  notHash := by rintro rfl; revert isBare; decide

theorem moreKeys_end (notDotted : (skipBlanks text).head? ≠ some '.') (fuel : Nat)
    (done : List String) :
    moreKeys (fuel + 1) done text = some (done.reverse, skipBlanks text) := by
  rw [moreKeys]
  split
  · next dotted => simp [dotted] at notDotted
  · rfl

/-- A name that is written without quotes. -/
structure BareName (name : String) : Prop where
  present : name.toList ≠ []
  bare : ∀ c ∈ name.toList, isBareKeyChar c

variable {name : String} {item : Setting} {root : Node}

theorem BareName.exists_head (bareName : BareName name) :
    ∃ first more, name.toList = first :: more ∧ isBareKeyChar first := by
  obtain ⟨first, more, spelled⟩ := List.exists_cons_of_ne_nil bareName.present
  exact ⟨first, more, spelled, bareName.bare first (by simp [spelled])⟩

theorem BareName.simpleKey_append (bareName : BareName name)
    (ends : ∀ c ∈ rest.head?, isBareKeyChar c = false) :
    simpleKey (name.toList ++ rest) = some (name, rest) := by
  have taken : (name.toList ++ rest).takeWhile isBareKeyChar = name.toList := by
    rw [List.takeWhile_append_of_pos bareName.bare]
    cases rest with
    | nil => simp
    | cons c rest => simp [ends c rfl]
  rw [simpleKey, taken]
  split
  · next empty => exact absurd empty bareName.present
  · simp

/-- No further name follows the bare name of a key. -/
theorem BareName.key_append (bareName : BareName name) (rest : List Char)
    (ends : ∀ c ∈ rest.head?, isBareKeyChar c = false)
    (notDotted : (skipBlanks rest).head? ≠ some '.') :
    key (name.toList ++ rest) = some ([name], skipBlanks rest) := by
  have begins : skipBlanks (name.toList ++ rest) = name.toList ++ rest := by
    obtain ⟨first, more, spelled, isBare⟩ := bareName.exists_head
    rw [spelled, List.cons_append, skipBlanks_cons (Shown.of_isBareKeyChar isBare).notBlank]
  rw [key, begins, bareName.simpleKey_append ends]
  simp only [moreKeys_end notDotted, Option.bind_eq_bind, Option.bind_some]
  exact if_pos (show 1 ≤ greatestDepth by decide)

theorem BareName.ne_bracket (bareName : BareName name) (rest more : List Char) :
    name.toList ++ rest ≠ '[' :: more := by
  obtain ⟨first, others, spelled, isBare⟩ := bareName.exists_head
  rw [spelled]
  rintro begins
  obtain rfl := (List.cons.inj begins).1
  revert isBare
  decide

/-- A line that opens a table, before the lines that follow. -/
def headerLine (name : String) (rest : List Char) : List Char :=
  '[' :: (name.toList ++ ']' :: '\n' :: rest)

/-- A line with a value, before the lines that follow. -/
def entryLine (name : String) (written rest : List Char) : List Char :=
  name.toList ++ ' ' :: '=' :: ' ' :: (written ++ '\n' :: rest)

theorem line_header (bareName : BareName name)
    (opened : progress.root.openTable [name] = some root) (rest : List Char) :
    line progress ('[' :: (name.toList ++ ']' :: rest)) = some (⟨root, [name]⟩, rest) := by
  have bracket : skipBlanks (']' :: rest) = ']' :: rest := skipBlanks_cons (by decide)
  have named := bareName.key_append (']' :: rest) (by rintro c ⟨⟩; rfl)
    (by simp [bracket])
  have headed : header? [']'] (name.toList ++ ']' :: rest) = some ([name], rest) := by
    rw [header?, named, bracket]
    rfl
  rw [line.eq_def]
  split
  · next many => exact absurd (List.cons.inj many).2 (bareName.ne_bracket _ _)
  · next one =>
      obtain rfl := (List.cons.inj one).2
      simp [headed, opened]
  · next plain => exact absurd rfl (plain _)

/-- A value that is read up to the end of its line, wherever it stands. -/
structure WritesValue (written : List Char) (item : Setting) : Prop where
  begins : ∀ c ∈ written.head?, isBlank c = false
  reads : ∀ fuel room rest,
    value (fuel + 1) room (written ++ '\n' :: rest) = some (item, '\n' :: rest)

theorem line_entry (bareName : BareName name) (writes : WritesValue text item)
    (inserted : progress.root.descend false (Node.insert [name] item) progress.current =
      some root) (rest : List Char) :
    line progress (name.toList ++ ' ' :: '=' :: ' ' :: (text ++ '\n' :: rest)) =
      some (⟨root, progress.current⟩, '\n' :: rest) := by
  have blank : skipBlanks (' ' :: '=' :: ' ' :: (text ++ '\n' :: rest)) =
      '=' :: ' ' :: (text ++ '\n' :: rest) := by simp [skipBlanks, isBlank]
  have begins : skipBlanks (' ' :: (text ++ '\n' :: rest)) = text ++ '\n' :: rest := by
    change skipBlanks (text ++ '\n' :: rest) = text ++ '\n' :: rest
    cases text with
    | nil => rfl
    | cons c text => exact skipBlanks_cons (writes.begins c rfl)
  have named := bareName.key_append (' ' :: '=' :: ' ' :: (text ++ '\n' :: rest))
    (by rintro c ⟨⟩; rfl) (by simp [blank])
  rw [blank] at named
  rw [line.eq_def]
  split
  · next many => exact absurd many (bareName.ne_bracket _ _)
  · next many => exact absurd many (bareName.ne_bracket _ _)
  · simp [named, begins, writes.reads, inserted]

theorem lines_headerLine (bareName : BareName name)
    (opened : progress.root.openTable [name] = some root) (fuel : Nat) (rest : List Char) :
    lines (fuel + 1) progress (headerLine name rest) = lines fuel ⟨root, [name]⟩ rest ∧
    lines (fuel + 1) progress ('\n' :: headerLine name rest) = lines fuel ⟨root, [name]⟩ rest := by
  have shown : Shown '[' := ⟨by decide, by decide, by decide, by decide⟩
  have read := line_header bareName opened ('\n' :: rest)
  exact ⟨lines_cons (shown.skipLines_cons _) read fuel,
    lines_cons (shown.skipLines_newline _) read fuel⟩

theorem lines_entryLine (bareName : BareName name) (writes : WritesValue text item)
    (inserted : progress.root.descend false (Node.insert [name] item) progress.current =
      some root) (fuel : Nat) (rest : List Char) :
    lines (fuel + 1) progress (entryLine name text rest) =
      lines fuel ⟨root, progress.current⟩ rest := by
  have read := line_entry bareName writes inserted rest
  obtain ⟨first, more, spelled, isBare⟩ := bareName.exists_head
  rw [entryLine]
  rw [spelled, List.cons_append] at read ⊢
  exact lines_cons ((Shown.of_isBareKeyChar isBare).skipLines_cons _) read fuel

theorem quotedText_begins {lines : Bool} {content : String}
    (read : quotedText lines text = some (content, rest)) :
    ∃ quote more, text = quote :: more ∧ (quote = '"' ∨ quote = '\'') := by
  rw [quotedText.eq_def] at read
  split at read
  · exact ⟨_, _, rfl, .inl rfl⟩
  · exact ⟨_, _, rfl, .inr rfl⟩
  · exact ⟨_, _, rfl, .inl rfl⟩
  · exact ⟨_, _, rfl, .inr rfl⟩
  · cases read

theorem writesValue_quote (content : String) :
    WritesValue (Toml.quote content).toList (.text content) where
  begins c isFirst := by
    obtain ⟨more, spelled⟩ := List.head?_eq_some_iff.mp isFirst
    obtain ⟨quote, others, begins, isQuote⟩ := quotedText_begins (quotedText_quote content [])
    rw [spelled] at begins
    obtain rfl := (List.cons.inj begins).1
    rcases isQuote with rfl | rfl
    · rfl
    · rfl
  reads fuel room rest := by
    have read := quotedText_quote content rest
    obtain ⟨quote, more, begins, isQuote⟩ := quotedText_begins read
    rw [begins] at read ⊢
    rcases isQuote with rfl | rfl
    · simp [value, read]
    · simp [value, read]

theorem writesValue_bool (flag : Bool) :
    WritesValue (if flag then "true" else "false").toList (.bool flag) where
  begins c isFirst := by
    cases flag with
    | false =>
        cases isFirst
        rfl
    | true =>
        cases isFirst
        rfl
  reads fuel room rest := by
    cases flag
    · change value (fuel + 1) room ('f' :: 'a' :: 'l' :: 's' :: 'e' :: '\n' :: rest) = _
      have notMoment : moment ('f' :: 'a' :: 'l' :: 's' :: 'e' :: '\n' :: rest) = none := rfl
      simp [value, notMoment, List.takeWhile, isWordChar, bareValue?]
    · change value (fuel + 1) room ('t' :: 'r' :: 'u' :: 'e' :: '\n' :: rest) = _
      have notMoment : moment ('t' :: 'r' :: 'u' :: 'e' :: '\n' :: rest) = none := rfl
      simp [value, notMoment, List.takeWhile, isWordChar, bareValue?]

end FieldRules.Toml
