import FieldRules.Proofs.Validator.Inner

namespace FieldRules.Validator

/-! A validator is built call by call from one without refinements. Each call is for one part,
and what a part holds in the end is decided by the calls for it, in their order. -/

/-- The validator of each kind without refinements. -/
inductive Start
  | any
  | array
  | boolean
  | number
  | string
  | date
  | object
  | alternatives (options : List Validator)

def Start.kind : Start → RuleKind
  | .any => .any
  | .array => .array
  | .boolean => .boolean
  | .number => .number
  | .string => .string
  | .date => .date
  | .object => .object
  | .alternatives _ => .alternatives

def Start.validator : Start → Validator
  | .any => .any
  | .array => .array
  | .boolean => .boolean
  | .number => .number
  | .string => .string
  | .date => .date
  | .object => .object
  | .alternatives options => .alternatives options

/-- The parts of a validator that calls are for. -/
inductive Part
  | integer
  | guid
  | iso
  | precision
  | max
  | format
  | keys
  | allow
  | valid
  | description
  | notes
  | default
  | label
deriving DecidableEq

namespace Part

/-- The kind of rule that has the part, if not every validator does. -/
def kind? : Part → Option RuleKind
  | .integer | .precision => some .number
  | .guid | .max => some .string
  | .iso | .format => some .date
  | .keys => some .object
  | .allow | .valid | .description | .notes | .default | .label => none

/-- What a call for the part has to say. Flags are only set. -/
abbrev Argument : Part → Type
  | .integer | .guid | .iso => Unit
  | .precision => UInt32
  | .max => UInt64
  | .format | .description | .label => String
  | .keys => List (String × Validator)
  | .allow | .valid => List Json
  | .notes => List String
  | .default => Json

end Part

structure Call where
  part : Part
  argument : part.Argument

def apply (validator : Validator) : Call → Validator
  | ⟨.integer, _⟩ => validator.integer
  | ⟨.guid, _⟩ => validator.guid
  | ⟨.iso, _⟩ => validator.iso
  | ⟨.precision, digits⟩ => validator.precision digits
  | ⟨.max, length⟩ => validator.max length
  | ⟨.format, pattern⟩ => validator.format pattern
  | ⟨.keys, members⟩ => validator.keys members
  | ⟨.allow, values⟩ => validator.allowing values
  | ⟨.valid, values⟩ => validator.restrictedTo values
  | ⟨.description, text⟩ => validator.described text
  | ⟨.notes, notes⟩ => validator.noted notes
  | ⟨.default, value⟩ => validator.defaulting value
  | ⟨.label, text⟩ => validator.labelled text

def Start.build (start : Start) (calls : List Call) : Validator :=
  calls.foldl apply start.validator

def Call.argument? (call : Call) (part : Part) : Option part.Argument :=
  if same : call.part = part then some (same ▸ call.argument) else none

def arguments (part : Part) (calls : List Call) : List part.Argument :=
  calls.filterMap (·.argument? part)

def isCalled (part : Part) (calls : List Call) : Bool := calls.any (·.part = part)

/-- The rule with the refinements that were called for. Those of other kinds are left out. -/
def Start.ruleAfter (calls : List Call) : Start → Rule Validator
  | .any => .any
  | .array => .array
  | .boolean => .boolean
  | .number => .number (isCalled .integer calls) (arguments .precision calls).getLast?
  | .string => .string (arguments .max calls).getLast? (isCalled .guid calls)
  | .date => .date (isCalled .iso calls) (arguments .format calls).getLast?
  | .object => .object (Entries.ofList (arguments .keys calls).flatten)
  | .alternatives options => .alternatives options

/-- What a validator holds after a run of calls: the last argument, all arguments one after the
other, or the first of those that are the same. -/
structure Built (start : Start) (calls : List Call) (validator : Validator) : Prop where
  rule : validator.rule = start.ruleAfter calls
  allow : validator.allow = (arguments .allow calls).flatten.eraseDupsBy Json.same
  restricted : validator.valid.isSome = isCalled .valid calls
  valid : validator.valid.getD [] = (arguments .valid calls).flatten.eraseDupsBy Json.same
  description : validator.description = (arguments .description calls).getLast?
  notes : validator.notes = (arguments .notes calls).flatten
  default : validator.default = (arguments .default calls).getLast?
  label : validator.label = (arguments .label calls).getLast?

section

variable (validator : Validator) (call : Call)

/-! What one call does to each part. -/

/-- A refinement of another kind of rule does nothing. -/
theorem apply_of_kind_ne {kind : RuleKind} (refines : call.part.kind? = some kind)
    (differ : validator.kind ≠ kind) : validator.apply call = validator := by
  obtain ⟨rule, _, _, _, _, _, _⟩ := validator
  obtain ⟨part, argument⟩ := call
  cases part with
  | integer | precision =>
      cases refines
      cases rule with
      | number => exact absurd rfl differ
      | _ => rfl
  | guid | max =>
      cases refines
      cases rule with
      | string => exact absurd rfl differ
      | _ => rfl
  | iso | format =>
      cases refines
      cases rule with
      | date => exact absurd rfl differ
      | _ => rfl
  | keys =>
      cases refines
      cases rule with
      | object => exact absurd rfl differ
      | _ => rfl
  | allow | valid | description | notes | default | label => cases refines

theorem rule_apply_of_kind?_ne (differ : call.part.kind? ≠ some validator.kind) :
    (validator.apply call).rule = validator.rule := by
  cases refines : call.part.kind? with
  | some kind =>
      rw [apply_of_kind_ne validator call refines]
      rintro rfl
      exact differ refines
  | none =>
      obtain ⟨part, argument⟩ := call
      cases part with
      | allow | valid | description | notes | default | label => rfl
      | _ => cases refines

theorem rule_apply_number {integer : Bool} {precision : Option UInt32}
    (rule : validator.rule = .number integer precision) :
    (validator.apply call).rule =
      .number ((call.argument? .integer).isSome || integer)
        ((call.argument? .precision).or precision) := by
  obtain ⟨_, _, _, _, _, _, _⟩ := validator
  obtain ⟨part, argument⟩ := call
  cases rule
  cases part with
  | _ => rfl

theorem rule_apply_string {max : Option UInt64} {guid : Bool}
    (rule : validator.rule = .string max guid) :
    (validator.apply call).rule =
      .string ((call.argument? .max).or max) ((call.argument? .guid).isSome || guid) := by
  obtain ⟨_, _, _, _, _, _, _⟩ := validator
  obtain ⟨part, argument⟩ := call
  cases rule
  cases part with
  | _ => rfl

theorem rule_apply_date {iso : Bool} {format : Option String}
    (rule : validator.rule = .date iso format) :
    (validator.apply call).rule =
      .date ((call.argument? .iso).isSome || iso) ((call.argument? .format).or format) := by
  obtain ⟨_, _, _, _, _, _, _⟩ := validator
  obtain ⟨part, argument⟩ := call
  cases rule
  cases part with
  | _ => rfl

theorem rule_apply_object {keys : Entries Validator} (rule : validator.rule = .object keys) :
    (validator.apply call).rule = .object (keys.putAll ((call.argument? .keys).getD [])) := by
  obtain ⟨_, _, _, _, _, _, _⟩ := validator
  obtain ⟨part, argument⟩ := call
  cases rule
  cases part with
  | _ => rfl

theorem allow_apply :
    (validator.apply call).allow =
      Json.addNew validator.allow ((call.argument? .allow).getD []) := by
  obtain ⟨part, argument⟩ := call
  cases part with
  | _ => rfl

theorem isSome_valid_apply :
    (validator.apply call).valid.isSome =
      ((call.argument? .valid).isSome || validator.valid.isSome) := by
  obtain ⟨part, argument⟩ := call
  cases part with
  | _ => rfl

theorem valid_apply :
    (validator.apply call).valid.getD [] =
      Json.addNew (validator.valid.getD []) ((call.argument? .valid).getD []) := by
  obtain ⟨part, argument⟩ := call
  cases part with
  | _ => rfl

theorem description_apply :
    (validator.apply call).description =
      (call.argument? .description).or validator.description := by
  obtain ⟨part, argument⟩ := call
  cases part with
  | _ => rfl

theorem notes_apply :
    (validator.apply call).notes =
      validator.notes ++ (call.argument? .notes).getD [] := by
  obtain ⟨part, argument⟩ := call
  cases part with
  | notes => rfl
  | _ => exact (List.append_nil _).symm

theorem default_apply :
    (validator.apply call).default = (call.argument? .default).or validator.default := by
  obtain ⟨part, argument⟩ := call
  cases part with
  | _ => rfl

theorem label_apply :
    (validator.apply call).label = (call.argument? .label).or validator.label := by
  obtain ⟨part, argument⟩ := call
  cases part with
  | _ => rfl

end

section

variable (part : Part) (done : List Call) (call : Call)

theorem arguments_concat :
    arguments part (done ++ [call]) = arguments part done ++ (call.argument? part).toList := by
  rw [arguments, arguments, List.filterMap_append, List.filterMap_cons, List.filterMap_nil]
  cases call.argument? part with
  | none => rfl
  | some argument => rfl

theorem isSome_argument? : (call.argument? part).isSome = decide (call.part = part) := by
  rw [Call.argument?]
  split
  case isTrue same => exact (decide_eq_true same).symm
  case isFalse differ => exact (decide_eq_false differ).symm

theorem isCalled_concat :
    isCalled part (done ++ [call]) = ((call.argument? part).isSome || isCalled part done) := by
  rw [isSome_argument?, Bool.or_comm]
  simp [isCalled]

theorem isCalled_eq (calls : List Call) :
    isCalled part calls = !(arguments part calls).isEmpty := by
  induction calls with
  | nil => rfl
  | cons call rest ih =>
      rw [isCalled, List.any_cons, ← isCalled, ih, ← isSome_argument? part call, arguments,
        arguments, List.filterMap_cons]
      cases call.argument? part with
      | none => rfl
      | some argument => rfl

theorem getLast?_arguments_concat :
    (arguments part (done ++ [call])).getLast? =
      (call.argument? part).or (arguments part done).getLast? := by
  rw [arguments_concat, List.getLast?_append]
  cases call.argument? part with
  | none => rfl
  | some argument => rfl

theorem flatten_concat (lists : List (List α)) (last : Option (List α)) :
    (lists ++ last.toList).flatten = lists.flatten ++ last.getD [] := by
  rw [List.flatten_append]
  cases last with
  | none => rfl
  | some list => rw [Option.toList_some, List.flatten_singleton, Option.getD_some]

end

/-! One call after a run of calls. -/

theorem rule_apply {start : Start} {done : List Call} {validator : Validator}
    (rule : validator.rule = start.ruleAfter done) (call : Call) :
    (validator.apply call).rule = start.ruleAfter (done ++ [call]) := by
  cases start with
  | number =>
      rw [rule_apply_number validator call rule, Start.ruleAfter, isCalled_concat,
        getLast?_arguments_concat]
  | string =>
      rw [rule_apply_string validator call rule, Start.ruleAfter, isCalled_concat,
        getLast?_arguments_concat]
  | date =>
      rw [rule_apply_date validator call rule, Start.ruleAfter, isCalled_concat,
        getLast?_arguments_concat]
  | object =>
      rw [rule_apply_object validator call rule, Start.ruleAfter, arguments_concat,
        flatten_concat, Entries.ofList, Entries.ofList, Entries.putAll_append]
  | any | array | boolean | alternatives options =>
      have unrefined : call.part.kind? ≠ some validator.kind := by
        rw [Validator.kind, rule]
        cases call.part with
        | _ => simp [Part.kind?, Start.ruleAfter, Rule.kind]
      rw [rule_apply_of_kind?_ne validator call unrefined, rule]
      rfl

theorem Built.ofStart (start : Start) : Built start [] start.validator := by
  cases start with
  | _ => exact ⟨rfl, rfl, rfl, rfl, rfl, rfl, rfl, rfl⟩

theorem Built.apply {start : Start} {done : List Call} {validator : Validator}
    (built : Built start done validator) (call : Call) :
    Built start (done ++ [call]) (validator.apply call) where
  rule := rule_apply built.rule call
  allow := by
    rw [allow_apply, built.allow, Json.addNew_eraseDupsBy, arguments_concat, flatten_concat]
  restricted := by
    rw [isSome_valid_apply, built.restricted, isCalled_concat]
  valid := by
    rw [valid_apply, built.valid, Json.addNew_eraseDupsBy, arguments_concat, flatten_concat]
  description := by
    rw [description_apply, built.description, getLast?_arguments_concat]
  notes := by
    rw [notes_apply, built.notes, arguments_concat, flatten_concat]
  default := by
    rw [default_apply, built.default, getLast?_arguments_concat]
  label := by
    rw [label_apply, built.label, getLast?_arguments_concat]

theorem Built.foldl {start : Start} {done : List Call} {validator : Validator}
    (built : Built start done validator) (calls : List Call) :
    Built start (done ++ calls) (calls.foldl Validator.apply validator) := by
  induction calls generalizing done validator with
  | nil => rwa [List.append_nil]
  | cons call rest ih =>
      rw [List.append_cons]
      exact ih (built.apply call)

theorem Start.built (start : Start) (calls : List Call) :
    Built start calls (start.build calls) :=
  (Built.ofStart start).foldl calls

/-! What follows for the whole validator. -/

section

variable {start : Start} {calls : List Call} {validator : Validator}

theorem kind_ruleAfter : (start.ruleAfter calls).kind = start.kind := by
  cases start with
  | _ => rfl

theorem ruleAfter_congr {others : List Call}
    (same : ∀ part, arguments part calls = arguments part others) :
    start.ruleAfter calls = start.ruleAfter others := by
  cases start with
  | _ => simp only [Start.ruleAfter, isCalled_eq, same]

namespace Built

variable (built : Built start calls validator)
include built

theorem kind : validator.kind = start.kind := by
  rw [Validator.kind, built.rule, kind_ruleAfter]

theorem distinct_allow : Json.Distinct validator.allow := by
  rw [built.allow]
  exact Json.distinct_eraseDupsBy _

theorem distinct_valid : Json.Distinct (validator.valid.getD []) := by
  rw [built.valid]
  exact Json.distinct_eraseDupsBy _

theorem permits_iff (value : Json) :
    validator.permits value = true ↔
      ∃ values ∈ arguments .allow calls ++ arguments .valid calls,
        value.isIn values = true := by
  rw [permits, built.allow, built.valid, Json.isIn_eraseDupsBy, Json.isIn_eraseDupsBy]
  simp [Json.isIn, or_and_right, exists_or]

theorem keys {keys : List (String × Validator)} (rule : validator.rule = .object keys) :
    keys = Entries.ofList (arguments .keys calls).flatten := by
  rw [built.rule] at rule
  cases start with
  | object =>
      cases rule
      rfl
  | _ => cases rule

/-- From validators whose keys are distinct, only such ones are built. -/
theorem keysDistinct (options : ∀ option ∈ start.validator.inner, option.KeysDistinct)
    (members : ∀ member ∈ (arguments .keys calls).flatten, member.2.KeysDistinct) :
    validator.KeysDistinct := by
  have sameRule : validator.rule = Validator.rule { rule := start.ruleAfter calls } := built.rule
  rw [KeysDistinct.congr sameRule]
  cases start with
  | object =>
      refine keysDistinct_object (Entries.distinct_ofList _) fun key member => members key ?_
      exact Entries.mem_of_last? (Entries.mem_ofList_iff.mp member)
  | alternatives => exact keysDistinct_alternatives options
  | _ => exact keysDistinct_leaf rfl rfl

theorem valid_eq {other : Validator} (otherBuilt : Built start calls other) :
    validator.valid = other.valid := by
  have sameSome := built.restricted.trans otherBuilt.restricted.symm
  have sameValues := built.valid.trans otherBuilt.valid.symm
  cases here : validator.valid with
  | none =>
      rw [here, Option.isSome_none] at sameSome
      exact (Option.isNone_iff_eq_none.mp (Option.isSome_eq_false_iff.mp sameSome.symm)).symm
  | some values =>
      rw [here, Option.isSome_some] at sameSome
      obtain ⟨others, there⟩ := Option.isSome_iff_exists.mp sameSome.symm
      rw [here, there] at sameValues
      rw [there]
      exact congrArg some sameValues

theorem unique {other : Validator} (otherBuilt : Built start calls other) :
    validator = other := by
  have sameValid := built.valid_eq otherBuilt
  cases validator
  cases other
  rw [Validator.mk.injEq]
  exact ⟨built.rule.trans otherBuilt.rule.symm, built.allow.trans otherBuilt.allow.symm,
    sameValid, built.description.trans otherBuilt.description.symm,
    built.notes.trans otherBuilt.notes.symm, built.default.trans otherBuilt.default.symm,
    built.label.trans otherBuilt.label.symm⟩

theorem congr {others : List Call}
    (same : ∀ part, arguments part calls = arguments part others) :
    Built start others validator where
  rule := by rw [built.rule, ruleAfter_congr same]
  allow := by rw [built.allow, same]
  restricted := by rw [built.restricted, isCalled_eq, isCalled_eq, same]
  valid := by rw [built.valid, same]
  description := by rw [built.description, same]
  notes := by rw [built.notes, same]
  default := by rw [built.default, same]
  label := by rw [built.label, same]

end Built

end

/-- Every part of a built validator is what its own calls made it, in their order: they alone
decide, however those for other parts stand between them. -/
theorem Start.build_holds_calls (start : Start) (calls : List Call) :
    Built start calls (start.build calls) ∧
    (start.build calls).kind = start.kind ∧
    Json.Distinct (start.build calls).allow ∧
    Json.Distinct ((start.build calls).valid.getD []) ∧
    (∀ value, (start.build calls).permits value = true ↔
      ∃ values ∈ arguments .allow calls ++ arguments .valid calls,
        value.isIn values = true) ∧
    (∀ keys, (start.build calls).rule = .object keys →
      Entries.names keys = (Entries.names (arguments .keys calls).flatten).eraseDups ∧
      ∀ name, Entries.get? keys name = Entries.last? (arguments .keys calls).flatten name) ∧
    (∀ call kind, call.part.kind? = some kind → start.kind ≠ kind →
      (start.build calls).apply call = start.build calls) ∧
    ∀ others, (∀ part, arguments part calls = arguments part others) →
      start.build calls = start.build others := by
  have built := start.built calls
  refine ⟨built, built.kind, built.distinct_allow, built.distinct_valid, built.permits_iff,
    ?_, ?_, ?_⟩
  · intro keys rule
    rw [built.keys rule]
    exact ⟨Entries.names_ofList _, Entries.get?_ofList _⟩
  · intro call kind refines differ
    exact apply_of_kind_ne _ call refines (built.kind ▸ differ)
  · intro others same
    exact (built.congr same).unique (start.built others)

example :
    (Start.number.build
      [⟨.precision, 2⟩, ⟨.guid, ()⟩, ⟨.notes, ["in euros"]⟩, ⟨.precision, 3⟩]).rule =
      .number false (some 3) := rfl

end FieldRules.Validator
