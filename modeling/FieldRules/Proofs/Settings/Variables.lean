import FieldRules.Proofs.Files.Tree
import FieldRules.Proofs.Settings.Layers
import Mathlib.Data.Nat.Digits.Defs
import Mathlib.Data.List.Basic

namespace FieldRules.Numeral

open Real64

/-! A whole number's own text has no needless sign and no needless zero. -/

variable {digits rest : List Char} {text : String} {value : Int}

/-- Digits that do not begin with a zero unless it is all there is. -/
def Tidy (digits : List Char) : Prop := digits = ['0'] ∨ digits.head? ≠ some '0'

/-- Tidy digits, or a minus sign before the tidy digits of a number that is not zero. -/
def IsPlain (text : String) : Prop :=
  ∃ digits, isDigits digits = true ∧ Tidy digits ∧
    (text.toList = digits ∨ text.toList = '-' :: digits ∧ digits ≠ ['0'])

theorem digitsValue_eq (digits : List Char) :
    digitsValue digits = Nat.ofDigitChars 10 digits 0 := by
  simp only [digitsValue, Nat.ofDigitChars_eq_foldl, Nat.mul_comm]

theorem isDigits_iff : isDigits digits = true ↔ digits ≠ [] ∧ ∀ c ∈ digits, c.isDigit = true := by
  simp [isDigits]

theorem digit_sub_lt {c : Char} (digit : c.isDigit = true) : c.toNat - '0'.toNat < 10 := by
  simp only [Char.isDigit, Bool.and_eq_true, decide_eq_true_eq, UInt32.le_iff_toNat_le] at digit
  have upper : c.toNat ≤ 57 := digit.2
  have zero : '0'.toNat = 48 := rfl
  omega

theorem digitChar_sub {c : Char} (digit : c.isDigit = true) :
    Nat.digitChar (c.toNat - '0'.toNat) = c := by
  apply Char.toNat_inj.mp
  rw [Nat.toNat_digitChar_of_lt_ten (digit_sub_lt digit)]
  simp only [Char.isDigit, Bool.and_eq_true, decide_eq_true_eq, ge_iff_le,
    UInt32.le_iff_toNat_le] at digit
  have lower : 48 ≤ c.toNat := digit.1
  have zero : '0'.toNat = 48 := rfl
  omega

/-- Digits that are read after a value that is not zero are written after it again. -/
theorem toDigits_ofDigitChars (all : ∀ c ∈ digits, c.isDigit = true) {start : Nat}
    (positive : 0 < start) :
    Nat.toDigits 10 (Nat.ofDigitChars 10 digits start) = Nat.toDigits 10 start ++ digits := by
  induction digits generalizing start with
  | nil => simp
  | cons c rest ih =>
      obtain ⟨digit, others⟩ := List.forall_mem_cons.mp all
      have small := digit_sub_lt digit
      rw [Nat.ofDigitChars_cons, ih others (by omega),
        ← Nat.toDigits_append_toDigits (by omega) positive small, Nat.toDigits_of_lt_base small,
        digitChar_sub digit, List.append_assoc]
      rfl

theorem ofDigitChars_lt (all : ∀ c ∈ digits, c.isDigit = true) (start : Nat) :
    Nat.ofDigitChars 10 digits start < (start + 1) * 10 ^ digits.length := by
  induction digits generalizing start with
  | nil => simp
  | cons c rest ih =>
      obtain ⟨digit, others⟩ := List.forall_mem_cons.mp all
      have small := digit_sub_lt digit
      calc Nat.ofDigitChars 10 (c :: rest) start
          = Nat.ofDigitChars 10 rest (10 * start + (c.toNat - '0'.toNat)) := Nat.ofDigitChars_cons
        _ < (10 * start + (c.toNat - '0'.toNat) + 1) * 10 ^ rest.length := ih others _
        _ ≤ (10 * (start + 1)) * 10 ^ rest.length := Nat.mul_le_mul_right _ (by omega)
        _ = (start + 1) * 10 ^ (c :: rest).length := by rw [List.length_cons, pow_succ]; ring

theorem toDigits_digitsValue_iff (areDigits : isDigits digits = true) :
    Nat.toDigits 10 (digitsValue digits) = digits ↔ Tidy digits := by
  obtain ⟨nonempty, all⟩ := isDigits_iff.mp areDigits
  rw [digitsValue_eq]
  obtain ⟨c, rest, rfl⟩ := List.exists_cons_of_ne_nil nonempty
  obtain ⟨digit, others⟩ := List.forall_mem_cons.mp all
  by_cases zero : c = '0'
  · subst zero
    have unled : Nat.ofDigitChars 10 ('0' :: rest) 0 = Nat.ofDigitChars 10 rest 0 :=
      Nat.ofDigitChars_cons
    rw [unled, Tidy]
    constructor
    · intro written
      by_cases alone : rest = []
      · exact .inl (by rw [alone])
      · have short := (Nat.length_toDigits_le_iff (b := 10) (by omega)
          (List.length_pos_iff.mpr alone)).mpr
          (by simpa using ofDigitChars_lt others 0)
        rw [written, List.length_cons] at short
        omega
    · rintro (alone | led)
      · obtain rfl : rest = [] := (List.cons.inj alone).2
        rfl
      · exact absurd rfl led
  · have small := digit_sub_lt digit
    have rebuilt := digitChar_sub digit
    have positive : 0 < c.toNat - '0'.toNat := by
      rcases Nat.eq_zero_or_pos (c.toNat - '0'.toNat) with none | some
      · rw [none] at rebuilt
        exact absurd rebuilt.symm zero
      · exact some
    refine iff_of_true ?_ (.inr (by simpa using zero))
    rw [Nat.ofDigitChars_cons, Nat.mul_zero, Nat.zero_add, toDigits_ofDigitChars others positive,
      Nat.toDigits_of_lt_base small, rebuilt]
    rfl

theorem sign_cases (text : List Char) :
    (∃ rest, text = '+' :: rest ∧ sign text = (false, rest)) ∨
    (∃ rest, text = '-' :: rest ∧ sign text = (true, rest)) ∨ sign text = (false, text) := by
  unfold sign
  split
  · exact .inl ⟨_, rfl, rfl⟩
  · exact .inr (.inl ⟨_, rfl, rfl⟩)
  · exact .inr (.inr rfl)

theorem integer?_ok (read : integer? text = some value) :
    ∃ negative digits, sign text.toList = (negative, digits) ∧ isDigits digits = true ∧
      value = if negative then -(digitsValue digits : Int) else digitsValue digits := by
  unfold integer? at read
  split at read
  next negative digits signed =>
    obtain ⟨areDigits, bounded⟩ := Option.ite_none_right_eq_some.mp read
    obtain ⟨-, given⟩ := Option.ite_none_right_eq_some.mp bounded
    exact ⟨negative, digits, signed, areDigits, (Option.some.inj given).symm⟩

theorem toList_toString_natCast (number : Nat) :
    (toString (number : Int)).toList = Nat.toDigits 10 number := by
  rw [← String.toList_ofList (l := Nat.toDigits 10 number), ← Nat.toString_eq_ofList_toDigits]
  rfl

theorem toList_toString_neg {number : Nat} (positive : 0 < number) :
    (toString (-(number : Int))).toList = '-' :: Nat.toDigits 10 number := by
  obtain ⟨before, rfl⟩ := Nat.exists_eq_succ_of_ne_zero positive.ne'
  have written : toString (-((before.succ : Nat) : Int)) = "-" ++ toString before.succ := rfl
  rw [written, String.toList_append, Nat.toString_eq_ofList_toDigits]
  simp

theorem not_isDigits_cons {c : Char} (other : c.isDigit = false) :
    ¬ isDigits (c :: rest) = true := by
  simp [isDigits, other]

theorem not_isPlain_plus (spelled : text.toList = '+' :: rest) : ¬ IsPlain text := by
  rintro ⟨digits, areDigits, -, plain | ⟨negative, -⟩⟩
  · exact not_isDigits_cons (by decide) (spelled ▸ plain ▸ areDigits)
  · exact absurd (List.cons.inj (spelled.symm.trans negative)).1 (by decide)

theorem isPlain_minus_iff (spelled : text.toList = '-' :: digits)
    (areDigits : isDigits digits = true) : IsPlain text ↔ Tidy digits ∧ digits ≠ ['0'] := by
  constructor
  · rintro ⟨others, areOthers, tidy, plain | ⟨negative, positive⟩⟩
    · exact absurd (spelled ▸ plain ▸ areOthers) (not_isDigits_cons (by decide))
    · obtain rfl := (List.cons.inj (spelled.symm.trans negative)).2
      exact ⟨tidy, positive⟩
  · rintro ⟨tidy, positive⟩
    exact ⟨digits, areDigits, tidy, .inr ⟨spelled, positive⟩⟩

theorem isPlain_digits_iff (areDigits : isDigits text.toList = true) :
    IsPlain text ↔ Tidy text.toList := by
  constructor
  · rintro ⟨others, -, tidy, rfl | ⟨negative, -⟩⟩
    · exact tidy
    · exact absurd (negative ▸ areDigits) (not_isDigits_cons (by decide))
  · exact fun tidy => ⟨_, areDigits, tidy, .inl rfl⟩

theorem tidy_ne_zero_iff (areDigits : isDigits digits = true) (tidy : Tidy digits) :
    digits ≠ ['0'] ↔ 0 < digitsValue digits := by
  have written := (toDigits_digitsValue_iff areDigits).mpr tidy
  constructor
  · intro differs
    rcases Nat.eq_zero_or_pos (digitsValue digits) with none | some
    · rw [none] at written
      exact absurd written.symm differs
    · exact some
  · rintro positive rfl
    exact absurd positive (by decide)

/-- A whole number is written as it was given exactly if it was given plainly. -/
theorem toString_eq_iff_of_integer (read : integer? text = some value) :
    toString value = text ↔ IsPlain text := by
  obtain ⟨negative, digits, signed, areDigits, rfl⟩ := integer?_ok read
  rw [← String.toList_inj]
  rcases sign_cases text.toList with ⟨rest, spelled, split⟩ | ⟨rest, spelled, split⟩ | split
  · obtain ⟨rfl, rfl⟩ := Prod.mk.inj (signed.symm.trans split)
    refine iff_of_false (fun written => ?_) (not_isPlain_plus spelled)
    have member : '+' ∈ Nat.toDigits 10 (digitsValue digits) := by
      rw [← toList_toString_natCast]
      exact written ▸ spelled ▸ List.mem_cons_self
    exact absurd (Nat.isDigit_of_mem_toDigits (by omega) (by omega) member) (by decide)
  · obtain ⟨rfl, rfl⟩ := Prod.mk.inj (signed.symm.trans split)
    rw [isPlain_minus_iff spelled areDigits, spelled]
    rcases Nat.eq_zero_or_pos (digitsValue digits) with zero | positive
    · refine iff_of_false (fun written => ?_) fun plain => ?_
      · rw [zero] at written
        exact absurd (List.cons.inj written).1 (by decide)
      · have positive := (tidy_ne_zero_iff areDigits plain.1).mp plain.2
        omega
    · have differs : Tidy digits → digits ≠ ['0'] := fun tidy =>
        (tidy_ne_zero_iff areDigits tidy).mpr positive
      rw [if_pos rfl, toList_toString_neg positive, List.cons_inj_right,
        toDigits_digitsValue_iff areDigits]
      exact ⟨fun tidy => ⟨tidy, differs tidy⟩, And.left⟩
  · obtain ⟨rfl, rfl⟩ := Prod.mk.inj (signed.symm.trans split)
    rw [isPlain_digits_iff areDigits, ← toDigits_digitsValue_iff areDigits,
      ← toList_toString_natCast]
    rfl

end FieldRules.Numeral

namespace FieldRules.Settings

open Files Setting

/-! A variable's value is first taken for a truth value or a number where it reads as one, and a
directory is then called by the text of what was read. -/

/-- The variable for the directory of models. -/
def directoryVariable : String := "VALIDATORS__MODELS__DIR"

/-- How a value is spelled after it was taken for what it reads as. -/
inductive SpelledAs (given : String) : String → Prop
  | flag (value : Bool) (reads : given.toLower = toString value) : SpelledAs given (toString value)
  | integer {value : Int} (noFlag : ∀ flag : Bool, given.toLower ≠ toString flag)
      (reads : Numeral.integer? given = some value) : SpelledAs given (toString value)
  | real {value : Real64} (noFlag : ∀ flag : Bool, given.toLower ≠ toString flag)
      (noInteger : Numeral.integer? given = none) (reads : Numeral.real? given = some value) :
      SpelledAs given value.write
  | text (noFlag : ∀ flag : Bool, given.toLower ≠ toString flag)
      (noInteger : Numeral.integer? given = none) (noReal : Numeral.real? given = none) :
      SpelledAs given given

/-- A variable that gives no value to the directory of models nor to its whole section. -/
def LeadsElsewhere (name : String) : Prop :=
  ∀ key, variableKey? name = some key → Apart "models" "dir" (stepsOf key.toLower)

variable {disk : Disk} {environment : Environment} {path : Option String} {settings : Settings}
  {given spelled : String} {below : Entries Setting}

theorem digit_toLower_ne {c : Char} (digit : c.isDigit = true) :
    c.toLower ≠ 't' ∧ c.toLower ≠ 'f' := by
  have all : ∀ value < 10, (Nat.digitChar value).toLower ≠ 't' ∧
      (Nat.digitChar value).toLower ≠ 'f' := by decide
  have found := all _ (Numeral.digit_sub_lt digit)
  rwa [Numeral.digitChar_sub digit] at found

/-- A whole number begins with a sign or a digit, and no truth value does. -/
theorem noFlag_of_integer {number : Int} (reads : Numeral.integer? given = some number)
    (flag : Bool) : given.toLower ≠ toString flag := by
  obtain ⟨negative, digits, signed, areDigits, -⟩ := Numeral.integer?_ok reads
  obtain ⟨c, rest, spelled, other⟩ : ∃ c rest, given.toList = c :: rest ∧
      c.toLower ≠ 't' ∧ c.toLower ≠ 'f' := by
    rcases Numeral.sign_cases given.toList with ⟨rest, spelled, -⟩ | ⟨rest, spelled, -⟩ | split
    · exact ⟨_, _, spelled, by decide⟩
    · exact ⟨_, _, spelled, by decide⟩
    · obtain ⟨-, rfl⟩ := Prod.mk.inj (signed.symm.trans split)
      obtain ⟨nonempty, all⟩ := Numeral.isDigits_iff.mp areDigits
      obtain ⟨c, rest, spelled⟩ := List.exists_cons_of_ne_nil nonempty
      exact ⟨c, rest, spelled, digit_toLower_ne (all c (spelled ▸ List.mem_cons_self))⟩
  intro same
  have lowered : given.toLower.toList = given.toList.map Char.toLower := String.toList_map
  have head : some c.toLower = (toString flag).toList.head? := by
    rw [← same, lowered, spelled]
    rfl
  cases flag
  · exact other.2 (Option.some.inj head)
  · exact other.1 (Option.some.inj head)

theorem ofVariable_of_noFlag (noFlag : ∀ flag : Bool, given.toLower ≠ toString flag) :
    ofVariable given =
      match Numeral.integer? given, Numeral.real? given with
      | some number, _ => .integer number
      | none, some number => .real number
      | none, none => .text given := by
  unfold ofVariable
  split
  next isTrue => exact absurd isTrue (noFlag true)
  next isFalse => exact absurd isFalse (noFlag false)
  · rfl

theorem SpelledAs.toText? (isSpelled : SpelledAs given spelled) :
    (ofVariable given).toText? = some spelled := by
  cases isSpelled with
  | flag value reads =>
      rw [ofVariable, reads]
      cases value with
      | false => rfl
      | true => rfl
  | integer noFlag reads =>
      rw [ofVariable_of_noFlag noFlag, reads]
      rfl
  | real noFlag noInteger reads =>
      rw [ofVariable_of_noFlag noFlag, noInteger, reads]
      rfl
  | text noFlag noInteger noReal =>
      rw [ofVariable_of_noFlag noFlag, noInteger, noReal]
      rfl

theorem exists_spelledAs (given : String) : ∃ spelled, SpelledAs given spelled := by
  by_cases isFlag : ∃ flag : Bool, given.toLower = toString flag
  · obtain ⟨flag, reads⟩ := isFlag
    exact ⟨_, .flag flag reads⟩
  · have noFlag := not_exists.mp isFlag
    cases integer : Numeral.integer? given with
    | some value => exact ⟨_, .integer noFlag integer⟩
    | none =>
        cases real : Numeral.real? given with
        | some value => exact ⟨_, .real noFlag integer real⟩
        | none => exact ⟨_, .text noFlag integer real⟩

theorem toText?_ofVariable_iff :
    (ofVariable given).toText? = some spelled ↔ SpelledAs given spelled := by
  refine ⟨fun told => ?_, SpelledAs.toText?⟩
  obtain ⟨other, isOther⟩ := exists_spelledAs given
  obtain rfl := Option.some.inj (isOther.toText?.symm.trans told)
  exact isOther

theorem replaces_ofVariable (given : String) : (ofVariable given).Replaces := by
  intro incoming same
  obtain ⟨spelled, isSpelled⟩ := exists_spelledAs given
  have told := isSpelled.toText?
  rw [same] at told
  cases told

theorem lowered_of_toText? {value : Setting} (told : value.toText? = some spelled) :
    lowered value = value := by
  cases value with
  | list | table => cases told
  | _ => rfl

/-- What a variable gives to the layer, if anything. -/
def layerGiven? (entry : String × String) : Option (String × Setting) :=
  (variableKey? entry.1).map fun key => (key.toLower, ofVariable entry.2)

theorem loweredEntries_variableLayer (environment : Environment) :
    loweredEntries (variableLayer environment) = environment.filterMap layerGiven? := by
  rw [loweredEntries_eq, variableLayer, List.map_filterMap]
  apply List.filterMap_congr
  rintro ⟨name, value⟩ -
  obtain ⟨spelled, isSpelled⟩ := exists_spelledAs value
  have same := lowered_of_toText? isSpelled.toText?
  simp only [layerGiven?]
  cases variableKey? name with
  | none => simp
  | some key => simp [same]

theorem holds_directoryVariable (below : Entries Setting) (given : String) :
    ∃ entry, layerGiven? (directoryVariable, given) = some entry ∧
      Holds (layEntry below entry) "models" "dir" (ofVariable given) := by
  have key : variableKey? directoryVariable = some "models.dir" := by decide +kernel
  have steps : stepsOf "models.dir".toLower = [.name "models", .name "dir"] := by decide +kernel
  exact ⟨_, by rw [layerGiven?, key, Option.map_some],
    holds_layEntry_part steps (replaces_ofVariable given)⟩

/-- The variable gives the directory its value, and the others leave it alone. -/
theorem holds_variableLayer
    (others : ∀ entry ∈ environment, entry ≠ (directoryVariable, given) → LeadsElsewhere entry.1)
    (set : Holds below "models" "dir" (ofVariable given) ∨
      (directoryVariable, given) ∈ environment) :
    Holds (layOver below (variableLayer environment)) "models" "dir" (ofVariable given) := by
  rw [layOver_eq, loweredEntries_variableLayer]
  induction environment generalizing below with
  | nil => exact set.resolve_right List.not_mem_nil
  | cons entry rest ih =>
      obtain ⟨here, there⟩ := List.forall_mem_cons.mp others
      by_cases same : entry = (directoryVariable, given)
      · obtain ⟨layed, isLayed, holds⟩ := holds_directoryVariable below given
        rw [same, List.filterMap_cons_some isLayed, List.foldl_cons]
        exact ih there (.inl holds)
      · have set := set.imp_right fun member =>
          (List.mem_cons.mp member).resolve_left (Ne.symm same)
        cases isLayed : layerGiven? entry with
        | none =>
            rw [List.filterMap_cons_none isLayed]
            exact ih there set
        | some layed =>
            obtain ⟨key, isKey, rfl⟩ := Option.map_eq_some_iff.mp isLayed
            rw [List.filterMap_cons_some isLayed, List.foldl_cons]
            exact ih there (set.imp_left fun holds => holds.layEntry (here same key isKey))

theorem load_ok (loaded : load disk environment path = .ok settings) :
    ∃ below, ofSetting? (.table (layOver below (variableLayer environment))) = some settings := by
  rw [load_eq] at loaded
  obtain ⟨defaults, -, loaded⟩ := bind_eq_ok_iff.mp loaded
  obtain ⟨chosen, -, loaded⟩ := bind_eq_ok_iff.mp loaded
  have split : defaults ++ [chosen, variableLayer environment] =
      (defaults ++ [chosen]) ++ [variableLayer environment] := by simp
  refine ⟨merged (defaults ++ [chosen]), ?_⟩
  rw [split, merged, List.foldl_append] at loaded
  split at loaded
  next found isFound =>
    cases loaded
    exact isFound
  · cases loaded

/-- Whatever the files say, the variable decides on the directory. Its value is spelled as what it
reads as, which is the value itself for a whole number only if that is written plainly. -/
theorem modelsDir_spelled_iff (set : (directoryVariable, given) ∈ environment)
    (others : ∀ entry ∈ environment, entry ≠ (directoryVariable, given) → LeadsElsewhere entry.1)
    (loaded : load disk environment path = .ok settings) :
    (∀ spelled, settings.modelsDir = some spelled ↔ SpelledAs given spelled) ∧
    ∀ number, Numeral.integer? given = some number →
      (settings.modelsDir = some given ↔ Numeral.IsPlain given) := by
  obtain ⟨below, settled⟩ := load_ok loaded
  obtain ⟨told, isTold⟩ := exists_spelledAs given
  have holds : Holds (layOver below (variableLayer environment)) "models" "dir"
      (ofVariable given) := holds_variableLayer others (.inr set)
  have modelsDir : settings.modelsDir = some told := by
    have read := (ofSetting?_eq_some_iff.mp settled).2.1
    exact (Option.some.inj ((readSection_dir holds isTold.toText?).symm.trans read)).symm
  have spelled_iff (spelled : String) :
      settings.modelsDir = some spelled ↔ SpelledAs given spelled := by
    rw [modelsDir, ← toText?_ofVariable_iff, isTold.toText?]
  refine ⟨spelled_iff, fun number reads => ?_⟩
  have asNumber := SpelledAs.integer (noFlag_of_integer reads) reads
  rw [modelsDir, ← Numeral.toString_eq_iff_of_integer reads,
    ← Option.some.inj (isTold.toText?.symm.trans asNumber.toText?), Option.some.injEq]

/-- A place without files, where variables are all that there is. -/
def bare : Disk := ⟨.directory [], []⟩

theorem isFile_bare (path : String) : bare.isFile path = false := by
  cases found : bare.tree path with
  | error fault => rw [Disk.isFile, found]
  | ok tree =>
      obtain ⟨place, -, leads⟩ := Disk.tree_eq_ok_iff.mp found
      cases place with
      | nil =>
          cases leads
          rw [Disk.isFile, found]
          rfl
      | cons name rest => cases leads

theorem absent_bare (file : String) : (candidates file).find? bare.isFile = none :=
  List.find?_eq_none.mpr fun path _ => by simp [isFile_bare]

/-- A directory that is called after a month, beside a variable for the format. -/
def october : Environment :=
  [("VALIDATORS__OUTPUT__FORMAT", "compact"), (directoryVariable, "2024.10")]

theorem modelsDir_spelled_iff_october : ∃ settings, load bare october none = .ok settings ∧
    SpelledAs "2024.10" "2024.1" ∧ settings.modelsDir = some "2024.1" := by
  have settled : ofSetting? (.table (layOver [] (variableLayer october))) =
      some { format := .compact, modelsDir := some "2024.1" } := by decide +kernel
  have loaded := load_of_absent (fun file _ => absent_bare file) rfl settled
  have others : ∀ entry ∈ october, entry ≠ (directoryVariable, "2024.10") →
      LeadsElsewhere entry.1 := by
    have key : variableKey? "VALIDATORS__OUTPUT__FORMAT" = some "output.format" := by decide +kernel
    have steps : stepsOf "output.format".toLower = [.name "output", .name "format"] := by
      decide +kernel
    simp only [october, List.forall_mem_cons]
    refine ⟨fun _ given isGiven => ?_, absurd rfl, List.forall_mem_nil _⟩
    obtain rfl := Option.some.inj (key.symm.trans isGiven)
    exact steps ▸ .elsewhere (by decide)
  have isSpelled : SpelledAs "2024.10" "2024.1" :=
    toText?_ofVariable_iff.mp (by decide +kernel)
  refine ⟨_, loaded, isSpelled, ?_⟩
  exact ((modelsDir_spelled_iff (by simp [october]) others loaded).1 _).mpr isSpelled

/-- A directory that is called by a number with zeros before it cannot be named. -/
theorem leadingZeros_lost :
    ∃ settings, load bare [(directoryVariable, "007")] none = .ok settings ∧
      settings.modelsDir ≠ some "007" := by
  have settled : ofSetting? (.table (layOver [] (variableLayer [(directoryVariable, "007")]))) =
      some { modelsDir := some "7" } := by decide +kernel
  exact ⟨_, load_of_absent (fun file _ => absent_bare file) rfl settled, by decide⟩

end FieldRules.Settings
