import FieldRules.Toml.Text
import Mathlib.Data.List.Infix

namespace FieldRules.Toml

open Text

/-! A text that is written between quotes is read back, in whichever form it is written. -/

/-- A character between quotes stands for itself or is written as an escape. Only double quotes
know escapes, and no escape starts like the end of a line. -/
inductive Written (quote c : Char) : List Char → Prop
  | plain (inside : c ≠ quote) (plain : quote = '"' → c ≠ '\\') (visible : isControl c = false) :
      Written quote c [c]
  | escape {code : List Char} (escapes : quote = '"')
      (inLine : ∀ rest, endsLine (code ++ rest) = false)
      (reads : ∀ rest, Toml.escape (code ++ rest) = some (c, rest)) :
      Written quote c ('\\' :: code)

/-- A text on several lines between three quotes, in which at most two quotes stand in a row. -/
inductive Body (quote : Char) : (chars text : List Char) → Prop
  | nil : Body quote [] []
  | char {c : Char} {code chars text : List Char} (written : Written quote c code)
      (more : Body quote chars text) : Body quote (c :: chars) (code ++ text)
  | newline {chars text : List Char} (more : Body quote chars text) :
      Body quote ('\n' :: chars) ('\n' :: text)
  | quote {chars text : List Char} (atMostTwo : ¬ [quote, quote] <+: text)
      (more : Body quote chars text) : Body quote (quote :: chars) (quote :: text)

variable {c quote : Char} {code chars text rest done : List Char} {fuel quotes : Nat}

theorem ne_lineEnd_of_visible (visible : isControl c = false) : c ≠ '\n' ∧ c ≠ '\r' := by
  constructor
  · rintro rfl
    simp [isControl] at visible
  · rintro rfl
    simp [isControl] at visible

theorem lineEnd?_eq_none (notNewline : c ≠ '\n') (notReturn : c ≠ '\r') :
    lineEnd? (c :: rest) = none := by
  simp [lineEnd?, notNewline, notReturn]

namespace Written

theorem exists_head (written : Written quote c code) (isQuote : quote = '"' ∨ quote = '\'') :
    ∃ first more, code = first :: more ∧ first ≠ quote ∧ first ≠ '\n' ∧ first ≠ '\r' := by
  cases written with
  | plain inside plain visible =>
      exact ⟨c, [], rfl, inside, ne_lineEnd_of_visible visible⟩
  | @escape code escapes inLine reads =>
      exact ⟨'\\', code, rfl, by subst escapes; decide, by decide, by decide⟩

theorem basic_append (written : Written '"' c code) (fuel : Nat) (done rest : List Char) :
    basic (fuel + 1) done (code ++ rest) = basic fuel (c :: done) rest := by
  cases written with
  | plain inside plain visible => simp [basic, inside, plain rfl, visible]
  | escape escapes inLine reads => simp [basic, reads]

theorem several_append (written : Written quote c code) (fuel : Nat) (done rest : List Char) :
    several quote (fuel + 1) done (code ++ rest) = several quote fuel (c :: done) rest := by
  cases written with
  | plain inside plain visible =>
      obtain ⟨notNewline, notReturn⟩ := ne_lineEnd_of_visible visible
      have notEscape : ¬ (c = '\\' ∧ quote = '"') := fun both => plain both.2 both.1
      simp [several, inside, notEscape, lineEnd?_eq_none notNewline notReturn, visible]
  | escape escapes inLine reads =>
      subst escapes
      simp [several, inLine, reads]

end Written

theorem several_newline (inside : quote ≠ '\n') (fuel : Nat) (done rest : List Char) :
    several quote (fuel + 1) done ('\n' :: rest) = several quote fuel ('\n' :: done) rest := by
  simp [several, inside.symm, lineEnd?]

theorem closing_replicate (done : List Char) (atMostTwo : quotes ≤ 2)
    (ends : rest.head? ≠ some quote) :
    closing quote done (List.replicate quotes quote ++ quote :: quote :: quote :: rest) =
      some (String.ofList (done.reverse ++ List.replicate quotes quote), rest) := by
  have joined : List.replicate quotes quote ++ quote :: quote :: quote :: rest =
      List.replicate (quotes + 3) quote ++ rest := by
    rw [List.replicate_add, List.append_assoc]
    rfl
  have taken : (List.replicate (quotes + 3) quote ++ rest).takeWhile (· == quote) =
      List.replicate (quotes + 3) quote := by
    rw [List.takeWhile_append_of_pos (by simp)]
    cases rest with
    | nil => simp
    | cons first more =>
        have differs : first ≠ quote := by simpa using ends
        simp [differs]
  rw [closing, joined, taken, List.length_replicate, if_pos (by omega)]
  simp

/-- Where at most two quotes stand in a row, three of them are the end. -/
theorem take_three_iff (atMostTwo : ¬ [quote, quote] <+: text) :
    (quote :: (text ++ quote :: quote :: quote :: rest)).take 3 = [quote, quote, quote] ↔
      ∃ quotes ≤ 1, text = List.replicate quotes quote := by
  constructor
  · intro begins
    match text with
    | [] => exact ⟨0, by omega, rfl⟩
    | [first] =>
        obtain rfl : first = quote := by simpa using begins
        exact ⟨1, by omega, rfl⟩
    | first :: second :: more =>
        obtain ⟨rfl, rfl⟩ : first = quote ∧ second = quote := by simpa using begins
        exact absurd ⟨more, rfl⟩ atMostTwo
  · rintro ⟨quotes, few, rfl⟩
    obtain rfl | rfl : quotes = 0 ∨ quotes = 1 := by omega
    · rfl
    · rfl

namespace Body

theorem length_le (body : Body quote chars text) (isQuote : quote = '"' ∨ quote = '\'') :
    chars.length ≤ text.length := by
  induction body with
  | nil => rfl
  | char written more ih =>
      obtain ⟨first, others, rfl, -⟩ := written.exists_head isQuote
      simp only [List.length_cons, List.length_append]
      omega
  | newline more ih => simpa using ih
  | quote atMostTwo more ih => simpa using ih

/-- Nothing but quotes stands for quotes. -/
theorem eq_of_forall_quote (body : Body quote chars text) (isQuote : quote = '"' ∨ quote = '\'')
    (onlyQuotes : ∀ c ∈ text, c = quote) : chars = text := by
  induction body with
  | nil => rfl
  | char written more ih =>
      obtain ⟨first, others, rfl, differs, -⟩ := written.exists_head isQuote
      exact absurd (onlyQuotes first (by simp)) differs
  | newline more ih =>
      have newline := onlyQuotes '\n' (by simp)
      rcases isQuote with rfl | rfl
      · cases newline
      · cases newline
  | quote atMostTwo more ih => rw [ih fun c member => onlyQuotes c (List.mem_cons_of_mem _ member)]

/-- What is written between three quotes is read up to the last of the quotes after it. -/
theorem several_eq (body : Body quote chars text) (isQuote : quote = '"' ∨ quote = '\'')
    (ends : rest.head? ≠ some quote) (enough : chars.length < fuel) (done : List Char) :
    several quote fuel done (text ++ quote :: quote :: quote :: rest) =
      some (String.ofList (done.reverse ++ chars), rest) := by
  induction body generalizing fuel done with
  | nil =>
      obtain ⟨fuel, rfl⟩ := Nat.exists_eq_add_one_of_ne_zero (Nat.ne_zero_of_lt enough)
      have closed := closing_replicate done (Nat.zero_le 2) ends
      simpa [several] using closed
  | char written more ih =>
      obtain ⟨fuel, rfl⟩ := Nat.exists_eq_add_one_of_ne_zero (Nat.ne_zero_of_lt enough)
      rw [List.append_assoc, written.several_append, ih (by simpa using enough)]
      simp
  | newline more ih =>
      obtain ⟨fuel, rfl⟩ := Nat.exists_eq_add_one_of_ne_zero (Nat.ne_zero_of_lt enough)
      have notQuote : quote ≠ '\n' := by
        rcases isQuote with rfl | rfl
        · decide
        · decide
      rw [List.cons_append, several_newline notQuote, ih (by simpa using enough)]
      simp
  | @quote chars text atMostTwo more ih =>
      obtain ⟨fuel, rfl⟩ := Nat.exists_eq_add_one_of_ne_zero (Nat.ne_zero_of_lt enough)
      have whole : Body quote (quote :: chars) (quote :: text) := .quote atMostTwo more
      rw [List.cons_append, several, if_pos rfl]
      by_cases onlyQuotes : ∃ quotes ≤ 1, text = List.replicate quotes quote
      · rw [if_pos ((take_three_iff atMostTwo).mpr onlyQuotes)]
        obtain ⟨quotes, few, isRun⟩ := onlyQuotes
        have wholeRun : quote :: text = List.replicate (quotes + 1) quote := by
          rw [isRun, List.replicate_succ]
        have same := whole.eq_of_forall_quote isQuote fun c member =>
          List.eq_of_mem_replicate (wholeRun ▸ member)
        have closed := closing_replicate done (by omega : quotes + 1 ≤ 2) ends
        rw [same, wholeRun, ← closed, ← wholeRun]
        rfl
      · rw [if_neg (mt (take_three_iff atMostTwo).mp onlyQuotes), ih (by simpa using enough)]
        simp

end Body

theorem hexValue_append {digits : List Char} (hexadecimal : digits.all isHexDigit)
    (rest : List Char) :
    hexValue digits.length (digits ++ rest) = some (natOf 16 digits, rest) := by
  simp [hexValue, hexadecimal]

theorem upperHex_spec {n : Nat} (small : n < 0x80) :
    (upperHex 4 n).length = 4 ∧ (upperHex 4 n).all isHexDigit ∧ natOf 16 (upperHex 4 n) = n ∧
      charOf? n = some (Char.ofNat n) := by
  have each : ∀ n : Fin 0x80, (upperHex 4 n).length = 4 ∧ (upperHex 4 n).all isHexDigit ∧
      natOf 16 (upperHex 4 n) = n ∧ charOf? n = some (Char.ofNat n) := by decide
  exact each ⟨n, small⟩

theorem hexChar_upperHex (small : c.toNat < 0x80) (rest : List Char) :
    hexChar 4 (upperHex 4 c.toNat ++ rest) = some (c, rest) := by
  obtain ⟨length, hexadecimal, value, char⟩ := upperHex_spec small
  have read := hexValue_append hexadecimal rest
  rw [length, value] at read
  simp [hexChar, read, char]

theorem endsLine_cons (inside : isBlank c = false) (notNewline : c ≠ '\n')
    (notReturn : c ≠ '\r') (rest : List Char) : endsLine (c :: rest) = false := by
  simp [endsLine, skipBlanks, inside, lineEnd?_eq_none notNewline notReturn]

theorem needsEscape_lt (needs : needsEscape c) : c.toNat < 0x80 := by
  simp only [needsEscape, Bool.or_eq_true, Bool.and_eq_true, decide_eq_true_eq,
    beq_iff_eq] at needs
  omega

theorem isControl_of_not_needsEscape (inside : ¬ needsEscape c) (notNewline : c ≠ '\n') :
    isControl c = false := by
  simpa [needsEscape, isControl, notNewline] using inside

/-- Every character but the double quote is written in one way, whatever comes before it. -/
theorem escaped_cons (lines : Bool) (notQuote : c ≠ '"') (onLine : lines = true → c ≠ '\n') :
    ∃ code, Written '"' c code ∧
      ∀ quotes rest, escaped lines quotes (c :: rest) = code ++ escaped lines 0 rest := by
  have short {mark : Char} (inside : isBlank mark = false) (notNewline : mark ≠ '\n')
      (notReturn : mark ≠ '\r') (reads : ∀ rest, Toml.escape (mark :: rest) = some (c, rest)) :
      Written '"' c ['\\', mark] :=
    .escape rfl (endsLine_cons inside notNewline notReturn) reads
  simp only [escaped, if_neg notQuote]
  split
  · exact ⟨_, short (by decide) (by decide) (by decide) fun _ => rfl, fun _ _ => rfl⟩
  · exact ⟨_, short (by decide) (by decide) (by decide) fun _ => rfl, fun _ _ => rfl⟩
  · rw [if_neg fun onLines => onLine onLines rfl]
    exact ⟨_, short (by decide) (by decide) (by decide) fun _ => rfl, fun _ _ => rfl⟩
  · exact ⟨_, short (by decide) (by decide) (by decide) fun _ => rfl, fun _ _ => rfl⟩
  · exact ⟨_, short (by decide) (by decide) (by decide) fun _ => rfl, fun _ _ => rfl⟩
  · exact ⟨_, short (by decide) (by decide) (by decide) fun _ => rfl, fun _ _ => rfl⟩
  · next notNewline _ _ notSlash =>
      split
      · next needs =>
          have written : Written '"' c ('\\' :: 'u' :: upperHex 4 c.toNat) :=
            .escape rfl (fun rest => endsLine_cons (by decide) (by decide) (by decide) _)
              (hexChar_upperHex (needsEscape_lt needs))
          exact ⟨_, written, fun _ _ => rfl⟩
      · next inside =>
          exact ⟨_, .plain notQuote (fun _ => notSlash)
            (isControl_of_not_needsEscape inside notNewline), fun _ _ => rfl⟩

theorem escaped_quote (lines : Bool) (quotes : Nat) (chars : List Char) :
    escaped lines quotes ('"' :: chars) =
      if quotes < (if lines then 2 else 0) then '"' :: escaped lines (quotes + 1) chars
      else '\\' :: '"' :: escaped lines 0 chars := by
  simp only [escaped, if_true]

theorem basic_escaped (rest : List Char) (enough : chars.length < fuel) (done : List Char) :
    basic fuel done (escaped false 0 chars ++ '"' :: rest) =
      some (String.ofList (done.reverse ++ chars), rest) := by
  induction chars generalizing fuel done with
  | nil =>
      obtain ⟨fuel, rfl⟩ := Nat.exists_eq_add_one_of_ne_zero (Nat.ne_zero_of_lt enough)
      simp [escaped, basic]
  | cons c chars ih =>
      obtain ⟨fuel, rfl⟩ := Nat.exists_eq_add_one_of_ne_zero (Nat.ne_zero_of_lt enough)
      have more := ih (by simpa using enough) (c :: done)
      by_cases isQuote : c = '"'
      · subst isQuote
        simpa [escaped, basic, Toml.escape] using more
      · obtain ⟨code, written, spelled⟩ := escaped_cons false isQuote nofun
        rw [spelled, List.append_assoc, written.basic_append, more]
        simp

/-- After some quotes in a row fewer of them can follow. -/
theorem replicate_not_prefix_escaped (chars : List Char) (atMostTwo : quotes ≤ 2) :
    ¬ List.replicate (3 - quotes) '"' <+: escaped true quotes chars := by
  induction chars generalizing quotes with
  | nil =>
      rw [escaped, List.prefix_nil, List.replicate_eq_nil_iff]
      omega
  | cons c chars ih =>
      obtain ⟨left, isLeft⟩ : ∃ left, 3 - quotes = left + 1 := ⟨2 - quotes, by omega⟩
      rw [isLeft, List.replicate_succ]
      by_cases isQuote : c = '"'
      · subst isQuote
        simp only [escaped_quote, if_true]
        split
        · next fewer =>
            rw [List.prefix_cons_inj, show left = 3 - (quotes + 1) by omega]
            exact ih fewer
        · simp
      · by_cases newline : c = '\n'
        · subst newline
          simp [escaped]
        · obtain ⟨code, written, spelled⟩ := escaped_cons true isQuote fun _ => newline
          obtain ⟨first, others, rfl, differs, -⟩ := written.exists_head (.inl rfl)
          rw [spelled, List.cons_append]
          simp [differs.symm]

theorem body_escaped (lines : Bool) (chars : List Char) (atMostTwo : quotes ≤ 2) :
    Body '"' chars (escaped lines quotes chars) := by
  induction chars generalizing quotes with
  | nil => exact .nil
  | cons c chars ih =>
      by_cases isQuote : c = '"'
      · subst isQuote
        rw [escaped_quote]
        by_cases fewer : quotes < if lines then 2 else 0
        · rw [if_pos fewer]
          obtain rfl : lines = true := by
            cases lines
            · cases fewer
            · rfl
          refine .quote (fun twice => ?_) (ih fewer)
          have fewQuotes : List.replicate (3 - (quotes + 1)) '"' <+: List.replicate 2 '"' :=
            List.prefix_replicate_iff.mpr ⟨by simp, by simp⟩
          exact replicate_not_prefix_escaped chars fewer (fewQuotes.trans twice)
        · rw [if_neg fewer]
          have written : Written '"' '"' ['\\', '"'] :=
            .escape rfl (endsLine_cons (by decide) (by decide) (by decide)) fun _ => rfl
          exact .char written (ih (Nat.zero_le 2))
      · by_cases newline : lines = true ∧ c = '\n'
        · obtain ⟨rfl, rfl⟩ := newline
          simpa [escaped] using Body.newline (ih (Nat.zero_le 2))
        · obtain ⟨code, written, spelled⟩ :=
            escaped_cons lines isQuote fun onLines isNewline => newline ⟨onLines, isNewline⟩
          rw [spelled]
          exact .char written (ih (Nat.zero_le 2))

/-- One step along a text, with the longest run of a character so far and the one that is still
going on. -/
def growRun (c : Char) (runs : Nat × Nat) (d : Char) : Nat × Nat :=
  let run := if d = c then runs.2 + 1 else 0
  (max runs.1 run, run)

theorem longestRun_eq (c : Char) (text : List Char) :
    longestRun c text = (text.foldl (growRun c) (0, 0)).1 := rfl

theorem le_foldl_growRun (c : Char) (runs : Nat × Nat) (text : List Char) :
    runs.1 ≤ (text.foldl (growRun c) runs).1 := by
  induction text generalizing runs with
  | nil => rfl
  | cons d text ih => exact (Nat.le_max_left _ _).trans (ih (growRun c runs d))

theorem foldl_growRun_replicate (c : Char) (runs : Nat × Nat) (count : Nat) :
    ((List.replicate count c).foldl (growRun c) runs).2 = runs.2 + count := by
  induction count generalizing runs with
  | zero => rfl
  | succ count ih =>
      rw [List.replicate_succ, List.foldl_cons, ih]
      simp only [growRun, if_true]
      omega

theorem le_longestRun {count : Nat} (isInfix : List.replicate (count + 1) c <:+: text) :
    count + 1 ≤ longestRun c text := by
  obtain ⟨before, after, rfl⟩ := isInfix
  rw [longestRun_eq, List.foldl_append, List.foldl_append, List.replicate_succ', List.foldl_append]
  refine le_trans ?_ (le_foldl_growRun c _ after)
  simp only [List.foldl_cons, List.foldl_nil]
  rw [growRun]
  simp only [if_true, foldl_growRun_replicate]
  omega

theorem body_self (visible : ∀ c ∈ chars, c = '\n' ∨ isControl c = false)
    (few : longestRun '\'' chars ≤ 2) : Body '\'' chars chars := by
  have suffixes : ∀ text, text <:+ chars → Body '\'' text text := by
    intro text isSuffix
    induction text with
    | nil => exact .nil
    | cons c text ih =>
        have more := ih ((List.suffix_cons c text).trans isSuffix)
        by_cases isQuote : c = '\''
        · subst isQuote
          refine .quote (fun twice => ?_) more
          have thrice : List.replicate (2 + 1) '\'' <:+: chars := by
            obtain ⟨after, rfl⟩ := twice
            exact List.IsInfix.trans ⟨[], after, rfl⟩ isSuffix.isInfix
          exact absurd (le_longestRun thrice) (by omega)
        · obtain rfl | shown := visible c (isSuffix.subset (by simp))
          · exact .newline more
          · exact .char (.plain isQuote nofun shown) more
  exact suffixes chars (List.suffix_refl chars)

theorem quotedText_eq_basic (one : ¬ ['"', '"'] <+: text) (lines : Bool) :
    quotedText lines ('"' :: text) = basic (text.length + 1) [] text := by
  rw [quotedText.eq_def]
  split
  · next rest several => exact absurd ⟨rest, (List.cons.inj several).2.symm⟩ one
  · next several => cases several
  · next single => rw [(List.cons.inj single).2]
  · next single => cases single
  · next unquoted _ => exact absurd rfl (unquoted text)

theorem quotedText_eq_literal (one : ¬ ['\'', '\''] <+: text) (lines : Bool) :
    quotedText lines ('\'' :: text) = literal text := by
  rw [quotedText.eq_def]
  split
  · next several => cases several
  · next rest several => exact absurd ⟨rest, (List.cons.inj several).2.symm⟩ one
  · next single => cases single
  · next single => rw [(List.cons.inj single).2]
  · next unquoted => exact absurd rfl (unquoted text)

theorem quotedText_basic (chars rest : List Char) :
    quotedText true ('"' :: (escaped false 0 chars ++ '"' :: '\n' :: rest)) =
      some (String.ofList chars, '\n' :: rest) := by
  have one : ¬ ['"', '"'] <+: escaped false 0 chars ++ '"' :: '\n' :: rest := by
    cases chars with
    | nil => simp [escaped]
    | cons c chars =>
        by_cases isQuote : c = '"'
        · subst isQuote
          simp [escaped]
        · obtain ⟨code, written, spelled⟩ := escaped_cons false isQuote nofun
          obtain ⟨first, others, rfl, differs, -⟩ := written.exists_head (.inl rfl)
          simp [spelled, differs.symm]
  rw [quotedText_eq_basic one]
  have enough : chars.length < (escaped false 0 chars ++ '"' :: '\n' :: rest).length + 1 := by
    have bounded := (body_escaped false chars (Nat.zero_le 2)).length_le (.inl rfl)
    simp only [List.length_append]
    omega
  exact basic_escaped _ enough []

theorem quotedText_literal (inside : ∀ c ∈ chars, c ≠ '\'' ∧ isControl c = false)
    (rest : List Char) :
    quotedText true ('\'' :: (chars ++ '\'' :: '\n' :: rest)) =
      some (String.ofList chars, '\n' :: rest) := by
  have one : ¬ ['\'', '\''] <+: chars ++ '\'' :: '\n' :: rest := by
    cases chars with
    | nil => simp
    | cons c chars => simp [(inside c (by simp)).1.symm]
  have taken : (chars ++ '\'' :: '\n' :: rest).takeWhile (fun c => c != '\'' && !isControl c) =
      chars := by
    rw [List.takeWhile_append_of_pos (by simpa using inside)]
    simp
  rw [quotedText_eq_literal one, literal, taken]
  simp

/-- A text without line ends does not begin with one. -/
theorem afterOpening_body (body : Body quote chars text) (isQuote : quote = '"' ∨ quote = '\'')
    (noLines : '\n' ∉ chars) (rest : List Char) :
    afterOpening (text ++ quote :: rest) = text ++ quote :: rest := by
  have quoteFirst (rest : List Char) : lineEnd? (quote :: rest) = none := by
    rcases isQuote with rfl | rfl
    · rfl
    · rfl
  cases body with
  | nil => simp [afterOpening, quoteFirst]
  | char written more =>
      obtain ⟨first, others, rfl, -, notNewline, notReturn⟩ := written.exists_head isQuote
      simp [afterOpening, lineEnd?_eq_none notNewline notReturn]
  | newline more => simp at noLines
  | quote atMostTwo more => simp [afterOpening, quoteFirst]

/-- Before a text of several lines stands a line end that does not count. -/
theorem quotedText_several (body : Body quote chars text)
    (isQuote : quote = '"' ∨ quote = '\'') (rest : List Char) :
    quotedText true (quote :: quote :: quote ::
        ((if chars.contains '\n' then '\n' :: text else text) ++
          quote :: quote :: quote :: '\n' :: rest)) =
      some (String.ofList chars, '\n' :: rest) := by
  have ends : ('\n' :: rest).head? ≠ some quote := by
    rcases isQuote with rfl | rfl
    · simp
    · simp
  generalize inner : (if chars.contains '\n' then '\n' :: text else text) ++
    quote :: quote :: quote :: '\n' :: rest = written
  have opened : afterOpening written = text ++ quote :: quote :: quote :: '\n' :: rest := by
    rw [← inner]
    cases hasLines : chars.contains '\n' with
    | true => rfl
    | false => exact afterOpening_body body isQuote (by simpa using hasLines) _
  have enough : chars.length < written.length + 1 := by
    have bounded := body.length_le isQuote
    rw [← inner, List.length_append]
    split
    · simp only [List.length_cons]
      omega
    · omega
  have read := body.several_eq isQuote ends enough []
  rw [← opened] at read
  rcases isQuote with rfl | rfl
  · exact read
  · exact read

theorem toList_between (quotes : String) (body : List Char) :
    (between quotes body).toList = quotes.toList ++ body ++ quotes.toList := by
  simp [between]

/-- A text at the end of a line, between whichever quotes it is written. -/
theorem quotedText_quote (text : String) (rest : List Char) :
    quotedText true ((Toml.quote text).toList ++ '\n' :: rest) = some (text, '\n' :: rest) := by
  obtain ⟨chars, rfl⟩ : ∃ chars, text = String.ofList chars := ⟨text.toList, by simp⟩
  have visible (noControl : chars.any needsEscape = false) :
      ∀ c ∈ chars, c = '\n' ∨ isControl c = false := by
    intro c member
    have inside : ¬ needsEscape c := by simpa using List.any_eq_false.mp noControl c member
    exact Classical.or_iff_not_imp_left.mpr (isControl_of_not_needsEscape inside)
  have severalEscaped := quotedText_several
    (body_escaped true chars (Nat.zero_le 2)) (.inl rfl) rest
  rw [Toml.quote]
  simp only [String.toList_ofList]
  split
  · rw [toList_between]
    simpa using quotedText_basic chars rest
  split
  · next literal =>
      simp only [Bool.and_eq_true, Bool.not_eq_true', beq_iff_eq] at literal
      obtain ⟨⟨noControl, noSingles⟩, noLines⟩ := literal
      have inside : ∀ c ∈ chars, c ≠ '\'' ∧ isControl c = false := by
        intro c member
        refine ⟨?_, (visible noControl c member).resolve_left ?_⟩
        · rintro rfl
          have one : List.replicate (0 + 1) '\'' <:+: chars :=
            (List.singleton_infix_iff _ _).mpr member
          have counted := le_longestRun one
          omega
        · rintro rfl
          simp [member] at noLines
      rw [toList_between]
      simpa using quotedText_literal inside rest
  split
  · rw [toList_between]
    cases hasLines : chars.contains '\n' with
    | false =>
        rw [hasLines] at severalEscaped
        simpa using severalEscaped
    | true =>
        rw [hasLines] at severalEscaped
        simpa using severalEscaped
  split
  · next literal =>
      simp only [Bool.and_eq_true, Bool.not_eq_true', decide_eq_true_eq] at literal
      rw [toList_between]
      simpa using quotedText_several (body_self (visible literal.1) literal.2) (.inr rfl) rest
  split
  · next hasLines =>
      rw [hasLines, if_pos rfl] at severalEscaped
      rw [toList_between]
      simpa using severalEscaped
  · rw [toList_between]
    simpa using quotedText_basic chars rest

end FieldRules.Toml
