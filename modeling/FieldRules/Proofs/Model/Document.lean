import FieldRules.Model
import FieldRules.Proofs.Validator.Reader

namespace FieldRules

open Json Reading

/-! A document that spells an attribute is read as that attribute. -/

namespace TypeDescription

def spelling (description : TypeDescription) : List (String × Json) := [
  ("type", ofOption .string description.name),
  ("values", ofOption Json.strings description.values),
  ("precision", ofOption Json.ofUInt32 description.precision),
  ("max", ofOption Json.ofUInt64 description.max),
  ("format", ofOption .string description.format)]

/-- The description as far as the members with some names give it. -/
def only (description : TypeDescription) (seen : List String) : TypeDescription where
  name := if "type" ∈ seen then description.name else none
  values := if "values" ∈ seen then description.values else none
  precision := if "precision" ∈ seen then description.precision else none
  max := if "max" ∈ seen then description.max else none
  format := if "format" ∈ seen then description.format else none

variable {description : TypeDescription} {members : List (String × Json)} {room : Nat}
  {checked : Bool}

theorem take_only {member : String × Json} (given : member ∈ description.spelling)
    (deep : member.2.depth ≤ room) (seen : List String) :
    layout.take ⟨room, checked⟩ (description.only seen) member =
      .ok (description.only (seen ++ [member.1])) := by
  simp only [spelling, List.mem_cons, List.not_mem_nil, or_false] at given
  rcases given with rfl | rfl | rfl | rfl | rfl
  · simp [Layout.take, Layout.find?, layout, Outline.readOption_string, only]
  · simp [Layout.take, Layout.find?, layout, Outline.readOption_strings deep, only]
  · simp [Layout.take, Layout.find?, layout, Outline.readOption_uint32, only]
  · simp [Layout.take, Layout.find?, layout, Outline.readOption_uint64, only]
  · simp [Layout.take, Layout.find?, layout, Outline.readOption_string, only]

theorem only_names (spells : Spells description.spelling (spelling {}) members) :
    description.only (Entries.names members) = description := by
  have name := spells.option_eq "type" .string description.name (by simp [spelling]) nofun
    (by simp [spelling, ofOption])
  have values := spells.option_eq "values" Json.strings description.values (by simp [spelling])
    nofun (by simp [spelling, ofOption])
  have precision := spells.option_eq "precision" Json.ofUInt32 description.precision
    (by simp [spelling]) nofun (by simp [spelling, ofOption])
  have max := spells.option_eq "max" Json.ofUInt64 description.max (by simp [spelling]) nofun
    (by simp [spelling, ofOption])
  have format := spells.option_eq "format" .string description.format (by simp [spelling]) nofun
    (by simp [spelling, ofOption])
  rw [only, name, values, precision, max, format]

theorem read_spelled (spells : Spells description.spelling (spelling {}) members)
    (deep : membersDepth members ≤ room) :
    read ⟨room + 1, checked⟩ (Outline.ofJson (.object members)) = .ok description := by
  have known : ∀ member ∈ description.spelling, (layout.find? member.1).isSome := by
    simp [spelling, Layout.find?, layout]
  have each : ∀ member ∈ members, ∀ seen, layout.take ⟨room, checked⟩ (description.only seen)
      member = .ok (description.only (seen ++ [member.1])) :=
    fun member inMembers => take_only (spells.sound member inMembers)
      (membersDepth_le_iff.mp deep member inMembers)
  rw [read, Layout.read_spelled spells known (by simp [layout]) rfl each, only_names spells]

end TypeDescription

/-- A type is spelled by its name, or by an object that describes it. -/
def TypeRef.SpelledBy : TypeRef → Json → Prop
  | .named name, document => document = .string name
  | .described description, document => ∃ members, document = .object members ∧
      Spells description.spelling (TypeDescription.spelling {}) members
  | .deferred _, _ | .endless, _ => False

theorem TypeRef.SpelledBy.ne_null {ref : TypeRef} {document : Json}
    (spelled : ref.SpelledBy document) : document ≠ .null := by
  rintro rfl
  cases ref with
  | named name => cases spelled
  | described description =>
      obtain ⟨members, isObject, _⟩ := spelled
      cases isObject
  | deferred | endless => exact spelled

theorem TypeRef.read_spelled {ref : TypeRef} {document : Json} {room : Nat} {checked : Bool}
    (spelled : ref.SpelledBy document) (deep : document.depth ≤ room) :
    TypeRef.read ⟨room, checked⟩ (Outline.ofJson document) = .ok ref := by
  have checks : (Outline.ofJson document).check ⟨room, checked⟩ = .ok () := by
    rw [Outline.check, Outline.fault?_ofJson document deep]
  cases ref with
  | named name =>
      cases spelled
      rfl
  | described description =>
      obtain ⟨members, rfl, spells⟩ := spelled
      cases room with
      | zero => cases deep
      | succ room =>
          have taken : TypeDescription.read ⟨room + 1, true⟩
              (.object (Outline.membersOfJson members)) = .ok description :=
            TypeDescription.read_spelled spells (Nat.le_of_succ_le_succ deep)
          rw [Outline.ofJson] at checks
          simp only [Outline.ofJson, TypeRef.read, checks, taken]
          rfl
  | deferred | endless => cases spelled

namespace Attribute

/-- The members of an attribute, apart from its type. Null is spelled like no default. -/
def spelling (type : Json) (attr : Attribute) : List (String × Json) := [
  ("type", type),
  ("allowNull", ofOption .bool attr.allowNull),
  ("max", ofOption Json.ofUInt64 attr.max),
  ("precision", ofOption Json.ofUInt32 attr.precision),
  ("format", ofOption .string attr.format),
  ("iso", .bool attr.iso),
  ("values", ofOption Json.strings attr.values),
  ("label", ofOption .string attr.label),
  ("description", ofOption .string attr.description),
  ("comment", ofOption .string attr.comment),
  ("primaryKey", .bool attr.primaryKey),
  ("autoIncrement", .bool attr.autoIncrement),
  ("defaultValue", ofOption id attr.defaultValue),
  ("validator", ofOption Validator.toJson attr.override),
  ("isJS", .bool attr.ownRefinements)]

/-- What stands for the attribute's type, which is null if there is none. -/
def TypeSpelledBy (attr : Attribute) (document : Json) : Prop :=
  match attr.type with
  | none => document = .null
  | some ref => ref.SpelledBy document

/-- An object that spells an attribute: options that are not set are null or left out, and
flags may be left out if they are false. -/
def SpelledBy (attr : Attribute) (document : Json) : Prop :=
  ∃ type members, document = .object members ∧ attr.TypeSpelledBy type ∧
    Spells (attr.spelling type) (spelling .null {}) members

def only (attr : Attribute) (seen : List String) : Attribute where
  type := if "type" ∈ seen then attr.type else none
  allowNull := if "allowNull" ∈ seen then attr.allowNull else none
  max := if "max" ∈ seen then attr.max else none
  precision := if "precision" ∈ seen then attr.precision else none
  format := if "format" ∈ seen then attr.format else none
  iso := if "iso" ∈ seen then attr.iso else false
  values := if "values" ∈ seen then attr.values else none
  label := if "label" ∈ seen then attr.label else none
  description := if "description" ∈ seen then attr.description else none
  comment := if "comment" ∈ seen then attr.comment else none
  primaryKey := if "primaryKey" ∈ seen then attr.primaryKey else false
  autoIncrement := if "autoIncrement" ∈ seen then attr.autoIncrement else false
  defaultValue := if "defaultValue" ∈ seen then nonNull attr.defaultValue else none
  override := if "validator" ∈ seen then attr.override else none
  ownRefinements := if "isJS" ∈ seen then attr.ownRefinements else false

/-- The attribute that a document can give: a null default counts as none. -/
def settled (attr : Attribute) : Attribute :=
  { attr with defaultValue := nonNull attr.defaultValue }

/-- Nothing of the attribute's values gets lost in a document: their objects are sorted, and no
default in the override is null. -/
structure Expressible (attr : Attribute) : Prop where
  override : ∀ override ∈ attr.override, override.CanonicalThroughout
  default : ∀ default ∈ attr.defaultValue, default.sorted = default

theorem ofOption_nonNull (default : Option Json) :
    ofOption id (nonNull default) = ofOption id default := by
  cases default with
  | none => rfl
  | some default =>
      cases default with
      | null => rfl
      | _ => rfl

theorem nonNull_ne_null {default : Option Json} : ∀ value ∈ nonNull default, id value ≠ .null := by
  rintro _ given rfl
  cases default with
  | none => cases given
  | some default =>
      cases default with
      | null => cases given
      | _ => cases given

variable {attr : Attribute} {type : Json} {room : Nat} {checked : Bool}

theorem TypeSpelledBy.eq_none (typed : attr.TypeSpelledBy .null) : attr.type = none := by
  unfold TypeSpelledBy at typed
  split at typed
  · assumption
  · exact absurd rfl typed.ne_null

theorem TypeSpelledBy.readOption_type (typed : attr.TypeSpelledBy type)
    (deep : type.depth ≤ room) :
    Outline.readOption (TypeRef.read ⟨room, checked⟩) (Outline.ofJson type) = .ok attr.type := by
  unfold TypeSpelledBy at typed
  split at typed
  next isNone =>
    subst typed
    rw [isNone]
    rfl
  next ref isRef =>
    rw [isRef]
    exact Outline.readOption_ofJson typed.ne_null (TypeRef.read_spelled typed deep)

theorem Expressible.readOption_default (expressible : attr.Expressible)
    (deep : (ofOption id attr.defaultValue).depth ≤ room) :
    Outline.readOption (fun o => o.readValue ⟨room, checked⟩)
      (Outline.ofJson (ofOption id attr.defaultValue)) = .ok (nonNull attr.defaultValue) := by
  have sorted := expressible.default
  cases given : attr.defaultValue with
  | none => rfl
  | some default =>
      rw [given] at deep
      exact Validator.readDefault_ofJson deep (sorted default given)

theorem Expressible.readOption_override (expressible : attr.Expressible)
    (deep : (ofOption Validator.toJson attr.override).depth ≤ room) :
    Outline.readOption (Validator.read ⟨room, checked⟩)
      (Outline.ofJson (ofOption Validator.toJson attr.override)) = .ok attr.override := by
  refine Outline.readOption_ofOption fun override given => ⟨override.toJson_ne_null, ?_⟩
  rw [Option.mem_def.mp given] at deep
  exact (expressible.override override given).read_toJson deep

theorem take_only (expressible : attr.Expressible) (typed : attr.TypeSpelledBy type)
    {member : String × Json} (given : member ∈ attr.spelling type)
    (deep : member.2.depth ≤ room) (seen : List String) :
    layout.take ⟨room, checked⟩ (attr.only seen) member =
      .ok (attr.only (seen ++ [member.1])) := by
  simp only [spelling, List.mem_cons, List.not_mem_nil, or_false] at given
  rcases given with rfl | rfl | rfl | rfl | rfl | rfl | rfl | rfl | rfl | rfl | rfl | rfl | rfl |
    rfl | rfl
  · simp [Layout.take, Layout.find?, layout, typed.readOption_type deep, only]
  · simp [Layout.take, Layout.find?, layout, Outline.readOption_bool, only]
  · simp [Layout.take, Layout.find?, layout, Outline.readOption_uint64, only]
  · simp [Layout.take, Layout.find?, layout, Outline.readOption_uint32, only]
  · simp [Layout.take, Layout.find?, layout, Outline.readOption_string, only]
  · simp [Layout.take, Layout.find?, layout, Outline.ofJson, Outline.readBool, only]
  · simp [Layout.take, Layout.find?, layout, Outline.readOption_strings deep, only]
  · simp [Layout.take, Layout.find?, layout, Outline.readOption_string, only]
  · simp [Layout.take, Layout.find?, layout, Outline.readOption_string, only]
  · simp [Layout.take, Layout.find?, layout, Outline.readOption_string, only]
  · simp [Layout.take, Layout.find?, layout, Outline.ofJson, Outline.readBool, only]
  · simp [Layout.take, Layout.find?, layout, Outline.ofJson, Outline.readBool, only]
  · simp [Layout.take, Layout.find?, layout, expressible.readOption_default deep, only]
  · simp [Layout.take, Layout.find?, layout, expressible.readOption_override deep, only]
  · simp [Layout.take, Layout.find?, layout, Outline.ofJson, Outline.readBool, only]

theorem only_names {members : List (String × Json)} (typed : attr.TypeSpelledBy type)
    (spells : Spells (attr.spelling type) (spelling .null {}) members) :
    attr.only (Entries.names members) = attr.settled := by
  have typeEq : (if "type" ∈ Entries.names members then attr.type else none) = attr.type := by
    split
    · rfl
    next absent =>
      have isNull : type = .null := by
        simpa [spelling] using spells.blank_of_absent absent (show ("type", type) ∈ _ by
          simp [spelling])
      exact (isNull ▸ typed).eq_none.symm
  have allowNull := spells.option_eq "allowNull" .bool attr.allowNull (by simp [spelling])
    nofun (by simp [spelling, ofOption])
  have max := spells.option_eq "max" Json.ofUInt64 attr.max (by simp [spelling]) nofun
    (by simp [spelling, ofOption])
  have precision := spells.option_eq "precision" Json.ofUInt32 attr.precision
    (by simp [spelling]) nofun (by simp [spelling, ofOption])
  have format := spells.option_eq "format" .string attr.format (by simp [spelling]) nofun
    (by simp [spelling, ofOption])
  have iso := spells.flag_eq "iso" attr.iso (by simp [spelling]) (by simp [spelling])
  have values := spells.option_eq "values" Json.strings attr.values (by simp [spelling])
    nofun (by simp [spelling, ofOption])
  have label := spells.option_eq "label" .string attr.label (by simp [spelling]) nofun
    (by simp [spelling, ofOption])
  have description := spells.option_eq "description" .string attr.description
    (by simp [spelling]) nofun (by simp [spelling, ofOption])
  have comment := spells.option_eq "comment" .string attr.comment (by simp [spelling]) nofun
    (by simp [spelling, ofOption])
  have primaryKey := spells.flag_eq "primaryKey" attr.primaryKey (by simp [spelling])
    (by simp [spelling])
  have autoIncrement := spells.flag_eq "autoIncrement" attr.autoIncrement (by simp [spelling])
    (by simp [spelling])
  have defaultValue := spells.option_eq "defaultValue" id (nonNull attr.defaultValue)
    (by simp [spelling, ofOption_nonNull]) nonNull_ne_null
    (by simp [spelling, ofOption])
  have override := spells.option_eq "validator" Validator.toJson attr.override
    (by simp [spelling]) (fun override _ => override.toJson_ne_null)
    (by simp [spelling, ofOption])
  have ownRefinements := spells.flag_eq "isJS" attr.ownRefinements (by simp [spelling])
    (by simp [spelling])
  rw [only, typeEq, allowNull, max, precision, format, iso, values, label, description, comment,
    primaryKey, autoIncrement, defaultValue, override, ownRefinements]
  rfl

/-- However its members are ordered, a document that spells an attribute is read as it. -/
theorem read_spelled {document : Json} (expressible : attr.Expressible)
    (spelled : attr.SpelledBy document) (deep : document.depth ≤ room) :
    read ⟨room, checked⟩ (Outline.ofJson document) = .ok attr.settled := by
  obtain ⟨type, members, rfl, typed, spells⟩ := spelled
  have known : ∀ member ∈ attr.spelling type, (layout.find? member.1).isSome := by
    simp [spelling, Layout.find?, layout]
  cases room with
  | zero => cases deep
  | succ room =>
      have each : ∀ member ∈ members, ∀ seen, layout.take ⟨room, checked⟩ (attr.only seen)
          member = .ok (attr.only (seen ++ [member.1])) :=
        fun member inMembers => take_only expressible typed (spells.sound member inMembers)
          (membersDepth_le_iff.mp (Nat.le_of_succ_le_succ deep) member inMembers)
      rw [read, Layout.read_spelled spells known (by simp [layout]) rfl each,
        only_names typed spells]

end Attribute

end FieldRules

namespace FieldRules

open Json Reading

/-! A document that spells the attributes of a model gives the rules of the model that is made
of these attributes one after the other. -/

namespace Attribute

variable {attr : Attribute}

/-- To the rules of a field, a null default is no default. -/
theorem compile_settled (modelName key : String) :
    attr.settled.compile modelName key = attr.compile modelName key := by
  have annotated : ∀ validator, attr.settled.annotate key validator =
      attr.annotate key validator := by
    intro validator
    have truthy : (nonNull attr.defaultValue).filter isTruthy =
        attr.defaultValue.filter isTruthy := by
      cases attr.defaultValue with
      | none => rfl
      | some default =>
          cases default with
          | null => rfl
          | _ => rfl
    simp only [annotate, settled, truthy]
    rfl
  have sameRef : attr.settled.typeRef = attr.typeRef := rfl
  have standard : ∀ resolved, attr.settled.standard? resolved = attr.standard? resolved :=
    fun _ => rfl
  simp only [compile, sameRef, standard, annotated]
  rfl

end Attribute

namespace ModelRules

/-- Attributes with the same rules and the same answer to whether they may be null can stand for
each other. -/
theorem compile_mapValues {f : Attribute → Attribute}
    (sameRules : ∀ attr modelName key, (f attr).compile modelName key = attr.compile modelName key)
    (sameNull : ∀ attr, (f attr).isNullable = attr.isNullable) (modelName : String)
    (attributes : Entries Attribute) :
    compile modelName (attributes.mapValues f) = compile modelName attributes := by
  have sameStep : ∀ rules key attr, add rules key (f attr) = add rules key attr := by
    intro rules key attr
    rw [add, add, sameRules, sameNull]
  simp only [compile, Entries.mapValues, List.foldlM_map, sameStep]

end ModelRules

namespace Model

/-- A document that spells attributes one after the other, in which keys may repeat, and the
model's own name if it has one. -/
def SpelledBy (ownName : Option String) (pairs : List (String × Attribute)) (document : Json) :
    Prop :=
  ∃ entries members, document = .object members ∧
    List.Forall₂ (fun pair entry => pair.1 = entry.1 ∧ pair.2.SpelledBy entry.2) pairs entries ∧
    Spells [("name", ofOption .string ownName), ("attributes", .object entries)]
      [("name", .null)] members

def only (content : Option String × Entries Attribute) (seen : List String) :
    Option String × Entries Attribute :=
  (if "name" ∈ seen then content.1 else none, if "attributes" ∈ seen then content.2 else [])

variable {ownName : Option String} {pairs : List (String × Attribute)}

theorem readEntries_spelled {entries : List (String × Json)} {room : Nat} {checked : Bool}
    (expressible : ∀ pair ∈ pairs, pair.2.Expressible)
    (spelled : List.Forall₂ (fun pair entry => pair.1 = entry.1 ∧ pair.2.SpelledBy entry.2)
      pairs entries)
    (deep : membersDepth entries ≤ room) :
    (Outline.ofJson (.object entries)).readEntries ⟨room + 1, checked⟩ Attribute.read =
      .ok (Entries.ofList (Entries.mapValues Attribute.settled pairs)) := by
  refine Outline.readEntries_of_forall₂ ?_
  induction spelled with
  | nil => exact .nil
  | cons spells _ ih =>
      obtain ⟨sameKey, spells⟩ := spells
      rw [membersDepth_le_iff, List.forall_mem_cons] at deep
      rw [List.forall_mem_cons] at expressible
      refine .cons ⟨sameKey.symm, Attribute.read_spelled expressible.1 spells deep.1⟩ ?_
      exact ih expressible.2 (membersDepth_le_iff.mpr deep.2)

theorem layout_read_spelled {document : Json} {room : Nat} {checked : Bool}
    (expressible : ∀ pair ∈ pairs, pair.2.Expressible)
    (spelled : SpelledBy ownName pairs document) (deep : document.depth ≤ room + 2) :
    layout.read ⟨room + 2, checked⟩ (Outline.ofJson document) =
      .ok (ownName, Entries.ofList (Entries.mapValues Attribute.settled pairs)) := by
  obtain ⟨entries, members, rfl, spelled, spells⟩ := spelled
  let content := (ownName, Entries.ofList (Entries.mapValues Attribute.settled pairs))
  have given : ("attributes", .object entries) ∈ members :=
    (spells.complete _ (by simp)).resolve_right (by simp)
  have inNames : "attributes" ∈ Entries.names members := List.mem_map_of_mem given
  have entriesDeep : membersDepth entries ≤ room :=
    Nat.le_of_succ_le_succ (membersDepth_le_iff.mp (Nat.le_of_succ_le_succ deep) _ given)
  have entriesRead : (Outline.ofJson (.object entries)).readEntries ⟨room + 1, checked⟩
      Attribute.read = .ok content.2 := readEntries_spelled expressible spelled entriesDeep
  have each : ∀ member ∈ members, ∀ seen, layout.take ⟨room + 1, checked⟩
      (only content seen) member = .ok (only content (seen ++ [member.1])) := by
    intro member inMembers seen
    have inFull := spells.sound member inMembers
    simp only [List.mem_cons, List.not_mem_nil, or_false] at inFull
    rcases inFull with rfl | rfl
    · simp [Layout.take, Layout.find?, layout, Outline.readOption_string, only, content]
    · simp [Layout.take, Layout.find?, layout, entriesRead, only]
  have named := spells.option_eq "name" .string ownName (by simp) (by simp) (by simp)
  rw [Layout.read_spelled spells (by simp [Layout.find?, layout]) (by simp [layout, inNames]) rfl
    each, only, named, if_pos inNames]

theorem foldl_withAttribute (model : Model) :
    pairs.foldl (fun model pair => model.withAttribute pair.1 pair.2) model =
      ⟨model.name, model.attributes.putAll pairs⟩ := by
  induction pairs generalizing model with
  | nil => rfl
  | cons pair rest ih => exact ih _

/-- A document that spells attributes is a model that compiles to the same rules, or fails for
the same cause, as the model that is made of the attributes. -/
theorem compile_parse_eq_built {otherName : Option String} {name text : String} {document : Json}
    (chosen : (ownName <|> otherName) = some name) (nonempty : name ≠ "")
    (spelled : SpelledBy ownName pairs document)
    (expressible : ∀ pair ∈ pairs, pair.2.Expressible)
    (deep : document.depth ≤ greatestDepth)
    (outlined : Outline.ofText text = (Outline.ofJson document, false)) :
    ∃ model, parse text otherName = .ok model ∧
      model.compile =
        (pairs.foldl (fun model pair => model.withAttribute pair.1 pair.2)
          (named name)).compile := by
  let attributes := Entries.ofList (Entries.mapValues Attribute.settled pairs)
  have content : layout.read .outermost (Outline.ofJson document) = .ok (ownName, attributes) :=
    layout_read_spelled expressible spelled deep
  refine ⟨⟨name, attributes⟩, ?_, ?_⟩
  · have read : Reading.document layout.read text = .ok (ownName, attributes) := by
      rw [Reading.document, outlined]
      simp only [ok_bind, content]
      rfl
    have kept : (some name).filter (· != "") = some name := if_pos (by simpa using nonempty)
    rw [parse, read]
    simp only [mapError_ok, ok_bind, ofDocument, chosen, kept]
  · rw [foldl_withAttribute, compile, compile]
    simp only [attributes, ← Entries.mapValues_ofList]
    exact ModelRules.compile_mapValues (fun _ => Attribute.compile_settled) (fun _ => rfl) _ _

/-- An identifier that is given twice, the second time with an answer to whether it may be
null and a null default. -/
def ticketPairs : List (String × Attribute) := [
  ("id", { type := some (.named "uuid") }),
  ("id", { type := some (.described { name := some "uuid" }), allowNull := some false,
           defaultValue := some .null })]

def ticketDocument : Json := .object [
  ("attributes", .object [
    ("id", .object [("max", .null), ("type", .string "uuid")]),
    ("id", .object [("allowNull", .bool false), ("type", .object [("type", .string "uuid")])])]),
  ("name", .string "Ticket")]

def ticketText : String :=
  "\x7b\"attributes\":\x7b\"id\":\x7b\"max\":null,\"type\":\"uuid\"\x7d,"
    ++ "\"id\":\x7b\"allowNull\":false,\"type\":\x7b\"type\":\"uuid\"\x7d\x7d\x7d,"
    ++ "\"name\":\"Ticket\"\x7d"

theorem ticket_spelled : SpelledBy (some "Ticket") ticketPairs ticketDocument := by
  have first : Attribute.SpelledBy { type := some (.named "uuid") }
      (.object [("max", .null), ("type", .string "uuid")]) := by
    refine ⟨_, _, rfl, rfl, ?_⟩
    constructor <;> simp [Attribute.spelling, ofOption, Entries.Distinct, Entries.names]
  have described : TypeRef.SpelledBy (.described { name := some "uuid" })
      (.object [("type", .string "uuid")]) := by
    refine ⟨_, rfl, ?_⟩
    constructor <;> simp [TypeDescription.spelling, ofOption, Entries.Distinct, Entries.names]
  have second : Attribute.SpelledBy
      { type := some (.described { name := some "uuid" }), allowNull := some false,
        defaultValue := some .null }
      (.object [("allowNull", .bool false), ("type", .object [("type", .string "uuid")])]) := by
    refine ⟨_, _, rfl, described, ?_⟩
    constructor <;> simp [Attribute.spelling, ofOption, Entries.Distinct, Entries.names]
  refine ⟨[("id", _), ("id", _)], _, rfl, .cons ⟨rfl, first⟩ (.cons ⟨rfl, second⟩ .nil), ?_⟩
  constructor <;> simp [ofOption, Entries.Distinct, Entries.names]

theorem compile_parse_eq_built_ticket :
    SpelledBy (some "Ticket") ticketPairs ticketDocument ∧
    Outline.ofText ticketText = (Outline.ofJson ticketDocument, false) ∧
    ∃ model, parse ticketText none = .ok model ∧
      model.compile = (ticketPairs.foldl (fun model pair => model.withAttribute pair.1 pair.2)
        (named "Ticket")).compile := by
  have expressible : ∀ pair ∈ ticketPairs, pair.2.Expressible := by
    simp only [ticketPairs, List.forall_mem_cons]
    refine ⟨⟨nofun, nofun⟩, ⟨nofun, ?_⟩, List.forall_mem_nil _⟩
    rintro _ ⟨⟩
    rfl
  have deep : ticketDocument.depth ≤ greatestDepth := by decide
  have outlined : Outline.ofText ticketText = (Outline.ofJson ticketDocument, false) := by cbv
  have chosen : (some "Ticket" <|> none) = some "Ticket" := rfl
  have nonempty : "Ticket" ≠ "" := by decide
  exact ⟨ticket_spelled, outlined,
    compile_parse_eq_built chosen nonempty ticket_spelled expressible deep outlined⟩

end Model

end FieldRules
