import FieldRules.Model
import FieldRules.Proofs.Validator.Reader

namespace FieldRules

open Json Reading

/-! Which documents are attributes: each member has its form, and a type's description or a
validator is one that would be read as a document of its own. -/

namespace TypeDescription

theorem read_same {scope other : Scope} {value : Json} (deep : value.depth ≤ scope.room)
    (wider : scope.room ≤ other.room) :
    SameResult (read scope (Outline.ofJson value)) (read other (Outline.ofJson value)) := by
  have wide : scope.inside.room ≤ other.inside.room := Nat.sub_le_sub_right wider 1
  refine Layout.Alike.read ⟨rfl, rfl, ?_⟩ deep wider
  simp only [layout, List.forall₂_cons, List.forall₂_nil_left_iff, and_true]
  refine ⟨⟨rfl, rfl, ?name⟩, ⟨rfl, rfl, ?values⟩, ⟨rfl, rfl, ?precision⟩, ⟨rfl, rfl, ?max⟩,
    ⟨rfl, rfl, ?format⟩⟩
  case values =>
    intro part lower before
    exact (Outline.readOption_same (Outline.readStrings_same lower wide)).bind fun _ => .refl _
  case name | precision | max | format => exact fun _ _ _ => .refl _

end TypeDescription

namespace Json

/-- Whether a value is read as a document of its own. -/
def Readable (read : Scope → Outline → Except ReadError α) (value : Json) : Prop :=
  Outline.Accepts (read .outermost) value

theorem accepts_iff_readable {read : Scope → Outline → Except ReadError α} {scope : Scope}
    {value : Json}
    (same : SameResult (read scope (Outline.ofJson value))
      (read .outermost (Outline.ofJson value))) :
    Outline.Accepts (read scope) value ↔ Readable read value :=
  exists_congr same

end Json

theorem TypeRef.accepts_read_iff {scope : Scope} {value : Json} (deep : value.depth ≤ scope.room)
    (narrow : scope.room ≤ greatestDepth) :
    Outline.Accepts (TypeRef.read scope) value ↔
      value.IsText ∨ Readable TypeDescription.read value := by
  have described : Outline.Accepts (TypeDescription.read scope.ofChecked) value ↔
      Readable TypeDescription.read value := by
    have wider : scope.ofChecked.room ≤ Scope.outermost.room := narrow
    exact accepts_iff_readable (TypeDescription.read_same deep wider)
  rw [← described]
  cases value with
  | string text => exact iff_of_true ⟨.named text, rfl⟩ (.inl ⟨text, rfl⟩)
  | null | bool | number | array | object =>
      unfold Outline.Accepts TypeRef.read
      rw [Outline.check_ofJson deep]
      simp only [ok_bind, IsText, reduceCtorEq, exists_false, false_or, Outline.ofJson,
        Scope.ofChecked]
      split
      · next taken => simp [taken]
      · next refused => simp [refused]

namespace Attribute

def forms : Entries (Json → Prop) := [
  ("type", OrNull fun value => value.IsText ∨ Readable TypeDescription.read value),
  ("allowNull", OrNull IsFlag),
  ("max", OrNull (IsWholeBelow UInt64.size)),
  ("precision", OrNull (IsWholeBelow UInt32.size)),
  ("format", OrNull IsText),
  ("iso", IsFlag),
  ("values", OrNull IsTexts),
  ("label", OrNull IsText),
  ("description", OrNull IsText),
  ("comment", OrNull IsText),
  ("primaryKey", IsFlag),
  ("autoIncrement", IsFlag),
  ("defaultValue", fun _ => True),
  ("validator", OrNull (Readable Validator.read)),
  ("isJS", IsFlag)]

/-- Members of an attribute's document, no two of one name and each in its form. -/
structure Grammar (members : List (String × Json)) : Prop where
  distinct : Entries.Distinct members
  formed : ∀ member ∈ members, ∃ form ∈ forms.get? member.1, form member.2

theorem layout_reads {scope : Scope} (unchecked : scope.checked = false)
    (narrow : scope.room ≤ greatestDepth) :
    List.Forall₂ (Layout.Member.Reads scope) layout.members forms := by
  have orNull {α : Type} {read : Outline → Except ReadError α} {value : Json} {form : Prop}
      (accepts : Outline.Accepts read value ↔ form) :
      Outline.Accepts (Outline.readOption read) value ↔ value = .null ∨ form :=
    Outline.accepts_readOption_iff.trans (or_congr_right accepts)
  simp only [layout, forms, List.forall₂_cons, List.forall₂_nil_left_iff, and_true]
  refine ⟨⟨rfl, ?type⟩, ⟨rfl, ?allowNull⟩, ⟨rfl, ?max⟩, ⟨rfl, ?precision⟩, ⟨rfl, ?format⟩,
    ⟨rfl, ?iso⟩, ⟨rfl, ?values⟩, ⟨rfl, ?label⟩, ⟨rfl, ?description⟩, ⟨rfl, ?comment⟩,
    ⟨rfl, ?primaryKey⟩, ⟨rfl, ?autoIncrement⟩, ⟨rfl, ?defaultValue⟩, ⟨rfl, ?validator⟩,
    ⟨rfl, ?isJS⟩⟩
  case type =>
    exact Layout.reads_of_accepts fun _ deep => orNull (TypeRef.accepts_read_iff deep narrow)
  case allowNull => exact Layout.reads_of_accepts fun _ _ => orNull Outline.accepts_readBool_iff
  case max => exact Layout.reads_of_accepts fun _ _ => orNull Outline.accepts_readUInt64_iff
  case precision => exact Layout.reads_of_accepts fun _ _ => orNull Outline.accepts_readUInt32_iff
  case format | label | description | comment =>
    exact Layout.reads_of_accepts fun _ _ => orNull Outline.accepts_readString_iff
  case iso | primaryKey | autoIncrement | isJS =>
    exact Layout.reads_of_accepts fun _ _ => Outline.accepts_readBool_iff
  case values =>
    exact Layout.reads_of_accepts fun _ deep => orNull (Outline.accepts_readStrings_iff deep)
  case defaultValue =>
    exact Layout.reads_of_accepts fun _ deep =>
      iff_true_intro (Outline.accepts_readOption_iff.mpr (.inr (Outline.accepts_readValue deep)))
  case validator =>
    exact Layout.reads_of_accepts fun _ deep =>
      orNull (accepts_iff_readable (Validator.read_same unchecked deep narrow))

theorem accepts_read_iff {scope : Scope} {members : List (String × Json)}
    (unchecked : scope.checked = false) (narrow : scope.room ≤ greatestDepth)
    (deep : (Json.object members).depth ≤ scope.room) :
    Outline.Accepts (read scope) (.object members) ↔ Grammar members := by
  have insideUnchecked : scope.inside.checked = false := unchecked
  have insideNarrow : scope.inside.room ≤ greatestDepth := Nat.le_trans (Nat.sub_le _ 1) narrow
  have nothingRequired : ∀ member ∈ layout.members, member.required →
      member.name ∈ Entries.names members := by simp [layout]
  rw [Outline.Accepts, read, Outline.ofJson, Layout.read, Outline.enter_of_lt deep,
    Layout.accepts_readObject_iff rfl (layout_reads insideUnchecked insideNarrow)
      (Nat.le_sub_one_of_lt deep)]
  constructor
  · rintro ⟨distinct, formed, -⟩
    exact ⟨distinct, formed⟩
  · rintro ⟨distinct, formed⟩
    exact ⟨distinct, formed, nothingRequired⟩

end Attribute

/-! Which documents are models. -/

/-- A text in which nothing is wrong is the outline of its value. -/
theorem Json.ofText_of_parseOrdered {text : String} {document : Json}
    (parsed : Json.parseOrdered text = .ok document) :
    Outline.ofText text = (Outline.ofJson document, false) ∧ document.depth ≤ greatestDepth := by
  obtain ⟨read, ended⟩ := document_ok_iff.mp parsed
  obtain ⟨_, checked, taken⟩ := bind_eq_ok_iff.mp read
  cases taken
  have sound := Outline.check_ok_iff.mp checked
  exact ⟨Prod.ext (Outline.ofJson_toJson _ sound).symm ended, Outline.depth_toJson_le _ sound⟩

def Json.text? : Json → Option String
  | .string text => some text
  | _ => none

namespace Model

def givenName (members : List (String × Json)) : Option String :=
  (Entries.get? members "name").bind Json.text?

/-- The document of a model: a name or none, and the attributes, in which a key may be repeated.
The model has a name, its own or another. -/
structure Grammar (members : List (String × Json)) (otherName : Option String) : Prop where
  known : ∀ name ∈ Entries.names members, name = "name" ∨ name = "attributes"
  distinct : Entries.Distinct members
  name : ∀ value, ("name", value) ∈ members → OrNull IsText value
  attributes : ∃ entries, ("attributes", .object entries) ∈ members ∧
    ∀ entry ∈ entries, ∃ own, entry.2 = .object own ∧ Attribute.Grammar own
  named : ∃ name, (givenName members <|> otherName) = some name ∧ name ≠ ""

def forms (scope : Scope) : Entries (Json → Prop) := [
  ("name", OrNull IsText),
  ("attributes", fun value => ∃ entries, value = .object entries ∧
    ∀ entry ∈ entries, Outline.Accepts (Attribute.read scope.inside) entry.2)]

variable {scope : Scope} {members : List (String × Json)} {otherName : Option String}

theorem layout_reads : List.Forall₂ (Layout.Member.Reads scope) layout.members (forms scope) := by
  simp only [layout, forms, List.forall₂_cons, List.forall₂_nil_left_iff, and_true]
  refine ⟨⟨rfl, ?name⟩, ⟨rfl, ?attributes⟩⟩
  case name =>
    exact Layout.reads_of_accepts fun _ _ =>
      Outline.accepts_readOption_iff.trans (or_congr_right Outline.accepts_readString_iff)
  case attributes =>
    exact Layout.reads_of_accepts fun _ deep => Outline.accepts_readEntries_iff deep

theorem text_of_readOption {part : Json} {text : Option String}
    (read : Outline.readOption Outline.readString (Outline.ofJson part) = .ok text) :
    text = part.text? := by
  cases part with
  | null =>
      cases read
      rfl
  | string part =>
      cases read
      rfl
  | _ => cases read

theorem name_of_take {before after : Option String × Entries Attribute} {name : String}
    {part : Json} (taken : layout.take scope before (name, part) = .ok after) :
    after.1 = if name = "name" then part.text? else before.1 := by
  by_cases isName : name = "name"
  · subst isName
    obtain ⟨text, read, rest⟩ := bind_eq_ok_iff.mp taken
    cases rest
    exact text_of_readOption read
  · rw [if_neg isName]
    by_cases isAttributes : name = "attributes"
    · subst isAttributes
      obtain ⟨_, _, rest⟩ := bind_eq_ok_iff.mp taken
      cases rest
      rfl
    · have unknown : layout.find? name = none := by
        simp [Layout.find?, layout, Ne.symm isName, Ne.symm isAttributes]
      rw [Layout.take, unknown] at taken
      cases taken
      rfl

/-- The name that was read is the one that the document gives. -/
theorem name_of_takeAll {before after : Option String × Entries Attribute}
    (distinct : Entries.Distinct members)
    (taken : layout.takeAll scope before members = .ok after) :
    after.1 = if "name" ∈ Entries.names members then givenName members else before.1 := by
  induction members generalizing before with
  | nil =>
      cases taken
      rfl
  | cons member rest ih =>
      obtain ⟨name, part⟩ := member
      obtain ⟨middle, step, taken⟩ := Layout.exists_of_takeAll_cons taken
      have absent : name ∉ Entries.names rest := (List.nodup_cons.mp distinct).1
      rw [ih distinct.tail taken, name_of_take step, givenName]
      by_cases isName : name = "name"
      · subst isName
        simp [absent, givenName]
      · simp [isName, Ne.symm isName, givenName]

theorem givenName_of_read {content : Option String × Entries Attribute}
    (deep : (Json.object members).depth ≤ scope.room)
    (read : layout.read scope (Outline.ofJson (.object members)) = .ok content) :
    content.1 = givenName members := by
  rw [Outline.ofJson, Layout.read, Outline.enter_of_lt deep, Layout.readObject_ok_iff rfl] at read
  obtain ⟨distinct, -, -, taken⟩ := read
  rw [name_of_takeAll distinct taken]
  split
  · rfl
  · next absent =>
      rw [givenName, Entries.get?_eq_none_iff.mpr absent]
      rfl

theorem ofDocument_ok_iff {content : Option String × Entries Attribute} :
    (∃ model, ofDocument content otherName = .ok model) ↔
      ∃ name, (content.1 <|> otherName) = some name ∧ name ≠ "" := by
  unfold ofDocument
  cases (content.1 <|> otherName) with
  | none => simp
  | some name =>
      by_cases empty : name = ""
      · simp [Option.filter, empty]
      · simp [Option.filter, empty]

theorem exists_forms_iff {name : String} {value : Json} :
    (∃ form ∈ (forms scope).get? name, form value) ↔
      name = "name" ∧ OrNull IsText value ∨
      name = "attributes" ∧ ∃ entries, value = .object entries ∧
        ∀ entry ∈ entries, Outline.Accepts (Attribute.read scope.inside) entry.2 := by
  by_cases isName : name = "name"
  · simp [forms, isName]
  · by_cases isAttributes : name = "attributes"
    · simp [forms, isAttributes]
    · simp [forms, isName, isAttributes]

/-- With the inside of the attributes left to their reader. -/
theorem accepts_layout_iff (deep : (Json.object members).depth ≤ scope.room) :
    Outline.Accepts (layout.read scope) (.object members) ↔
      Entries.Distinct members ∧
      (∀ member ∈ members, ∃ form ∈ (forms scope.inside).get? member.1, form member.2) ∧
      "attributes" ∈ Entries.names members := by
  rw [Outline.Accepts, Outline.ofJson, Layout.read, Outline.enter_of_lt deep,
    Layout.accepts_readObject_iff rfl layout_reads (Nat.le_sub_one_of_lt deep)]
  simp [layout]

theorem accepts_attributes_iff {entries : List (String × Json)}
    (unchecked : scope.checked = false) (narrow : scope.room ≤ greatestDepth)
    (deep : membersDepth entries ≤ scope.room)
    (objects : ∀ entry ∈ entries, ∃ own, entry.2 = .object own) :
    (∀ entry ∈ entries, Outline.Accepts (Attribute.read scope) entry.2) ↔
      ∀ entry ∈ entries, ∃ own, entry.2 = .object own ∧ Attribute.Grammar own := by
  refine forall₂_congr fun entry member => ?_
  obtain ⟨own, isObject⟩ := objects entry member
  have deepOwn : (Json.object own).depth ≤ scope.room :=
    isObject ▸ membersDepth_le_iff.mp deep entry member
  simp [isObject, Attribute.accepts_read_iff unchecked narrow deepOwn]

/-- The grammar says of the attributes' insides what their readers accept. -/
theorem grammar_iff_accepts (deep : (Json.object members).depth ≤ greatestDepth)
    (objects : ∀ entries, ("attributes", .object entries) ∈ members →
      ∀ entry ∈ entries, ∃ own, entry.2 = .object own) :
    Grammar members otherName ↔ Outline.Accepts (layout.read .outermost) (.object members) ∧
      ∃ name, (givenName members <|> otherName) = some name ∧ name ≠ "" := by
  have attributesRead : ∀ entries, ("attributes", .object entries) ∈ members →
      ((∀ entry ∈ entries,
          Outline.Accepts (Attribute.read Scope.outermost.inside.inside) entry.2) ↔
        ∀ entry ∈ entries, ∃ own, entry.2 = .object own ∧ Attribute.Grammar own) := by
    intro entries given
    have deepEntries := membersDepth_le_iff.mp (Nat.le_of_succ_le_succ deep) _ given
    exact accepts_attributes_iff rfl (by decide) (Nat.le_of_succ_le_succ deepEntries)
      (objects entries given)
  have deepOutermost : (Json.object members).depth ≤ Scope.outermost.room := deep
  simp only [accepts_layout_iff deepOutermost, exists_forms_iff]
  constructor
  · rintro ⟨known, distinct, name, ⟨entries, given, each⟩, named⟩
    refine ⟨⟨distinct, ?_, List.mem_map_of_mem given⟩, named⟩
    rintro ⟨key, value⟩ inMembers
    rcases known key (List.mem_map_of_mem inMembers) with rfl | rfl
    · exact .inl ⟨rfl, name value inMembers⟩
    · have same : value = .object entries := Option.some.inj <|
        (distinct.get?_of_mem inMembers).symm.trans (distinct.get?_of_mem given)
      exact .inr ⟨rfl, entries, same, (attributesRead entries given).mpr each⟩
  · rintro ⟨⟨distinct, formed, complete⟩, named⟩
    refine ⟨?known, distinct, ?name, ?attributes, named⟩
    case known =>
      intro name inNames
      obtain ⟨member, inMembers, rfl⟩ := List.mem_map.mp inNames
      exact (formed member inMembers).imp And.left And.left
    case name =>
      intro value given
      exact ((formed _ given).resolve_right (by simp)).2
    case attributes =>
      obtain ⟨⟨name, value⟩, given, isAttributes⟩ := List.mem_map.mp complete
      obtain rfl : name = "attributes" := isAttributes
      obtain ⟨-, entries, rfl, each⟩ := (formed _ given).resolve_left (by simp)
      exact ⟨entries, given, (attributesRead entries given).mp each⟩

/-- A document whose attributes, if they are an object, are objects themselves is read as a model
exactly if it is one by the grammar. It is one that can be read as a value at all: its numbers are
within the range of doubles, its texts have no lone surrogates, and it is not too deep. -/
theorem parse_ok_iff_grammar {text : String}
    (parsed : Json.parseOrdered text = .ok (.object members))
    (objects : ∀ entries, ("attributes", .object entries) ∈ members →
      ∀ entry ∈ entries, ∃ own, entry.2 = .object own) :
    (∃ model, parse text otherName = .ok model) ↔ Grammar members otherName := by
  obtain ⟨outlined, deep⟩ := Json.ofText_of_parseOrdered parsed
  calc (∃ model, parse text otherName = .ok model)
    _ ↔ ∃ content, layout.read .outermost (Outline.ofJson (.object members)) = .ok content ∧
          ∃ model, ofDocument content otherName = .ok model := by
        simp only [parse, bind_eq_ok_iff, mapError_eq_ok_iff, document_ok_iff, outlined, and_true]
        rw [exists_comm]
        simp only [exists_and_left]
    _ ↔ Outline.Accepts (layout.read .outermost) (.object members) ∧
          ∃ name, (givenName members <|> otherName) = some name ∧ name ≠ "" := by
        rw [Outline.Accepts, ← exists_and_right]
        refine exists_congr fun content => and_congr_right fun read => ?_
        rw [ofDocument_ok_iff, givenName_of_read deep read]
    _ ↔ Grammar members otherName := (grammar_iff_accepts deep objects).symm

/-- A key that is given twice, with a name at first and then with a description and a validator;
the model has no name of its own. -/
def invoiceMembers : List (String × Json) := [
  ("attributes", .object [
    ("id", .object [("type", .string "uuid"), ("max", .null)]),
    ("id", .object [("type", .object [("values", .array [])]),
      ("validator", .object [("rule", .object [("kind", .string "any")])])])]),
  ("name", .null)]

def invoiceText : String :=
  "\x7b\"attributes\":\x7b\"id\":\x7b\"type\":\"uuid\",\"max\":null\x7d,"
    ++ "\"id\":\x7b\"type\":\x7b\"values\":[]\x7d,"
    ++ "\"validator\":\x7b\"rule\":\x7b\"kind\":\"any\"\x7d\x7d\x7d\x7d,"
    ++ "\"name\":null\x7d"

theorem invoice_objects : ∀ entries, ("attributes", .object entries) ∈ invoiceMembers →
    ∀ entry ∈ entries, ∃ own, entry.2 = .object own := by
  simp only [invoiceMembers, List.mem_cons, Prod.mk.injEq, reduceCtorEq, and_false,
    List.not_mem_nil, or_false, true_and, Json.object.injEq]
  rintro _ rfl entry member
  simp only [List.mem_cons, List.not_mem_nil, or_false] at member
  rcases member with rfl | rfl
  · exact ⟨_, rfl⟩
  · exact ⟨_, rfl⟩

set_option maxRecDepth 4000 in
theorem parse_ok_iff_grammar_invoice :
    Json.parseOrdered invoiceText = .ok (.object invoiceMembers) ∧
      (∃ model, parse invoiceText (some "Invoice") = .ok model) ∧
      Grammar invoiceMembers (some "Invoice") ∧
      ¬ ∃ model, parse invoiceText none = .ok model := by
  have parsed : Json.parseOrdered invoiceText = .ok (.object invoiceMembers) := by cbv
  have read : (parse invoiceText (some "Invoice")).toOption.isSome := by cbv
  have reads : ∃ model, parse invoiceText (some "Invoice") = .ok model := by
    cases outcome : parse invoiceText (some "Invoice") with
    | ok model => exact ⟨model, rfl⟩
    | error cause => simp [outcome, Except.toOption] at read
  refine ⟨parsed, reads, (parse_ok_iff_grammar parsed invoice_objects).mp reads, fun nameless => ?_⟩
  obtain ⟨name, named, -⟩ := ((parse_ok_iff_grammar parsed invoice_objects).mp nameless).named
  cases named

end Model

end FieldRules
