import FieldRules.Attribute
import FieldRules.Text

namespace FieldRules

/-! How types and overrides are shown to a developer. What a deferred type answers
and what an override holds is not looked into. -/

def displayOption (display : α → String) : Option α → String
  | none => "None"
  | some value => "Some(" ++ display value ++ ")"

def displayTexts (texts : List String) : String :=
  "[" ++ ", ".intercalate (texts.map Text.quoted) ++ "]"

def TypeDescription.display (description : TypeDescription) : String :=
  "TypeDescriptor \x7b type_tag: " ++ displayOption Text.quoted description.name
    ++ ", values: " ++ displayOption displayTexts description.values
    ++ ", precision: " ++ displayOption (fun n => toString n.toNat) description.precision
    ++ ", max: " ++ displayOption (fun n => toString n.toNat) description.max
    ++ ", format: " ++ displayOption Text.quoted description.format ++ " \x7d"

def TypeRef.display : TypeRef → String
  | .named name => "Tag(" ++ Text.quoted name ++ ")"
  | .described description => "Descriptor(" ++ description.display ++ ")"
  | .deferred _ | .endless => "Resolver(..)"

def Attribute.displayOverride (attr : Attribute) : String :=
  if attr.override.isSome then "Overridden(..)" else "Standard"

end FieldRules
