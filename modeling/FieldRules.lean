import FieldRules.Main
import FieldRules.Proofs.Attribute.Documentation
import FieldRules.Proofs.Attribute.Guid
import FieldRules.Proofs.CommandLine.Check
import FieldRules.Proofs.CommandLine.Compile
import FieldRules.Proofs.Model.Document
import FieldRules.Proofs.Model.Grammar
import FieldRules.Proofs.ModelRules.Extensions
import FieldRules.Proofs.ModelRules.RoundTrip
import FieldRules.Proofs.Settings.Saved
import FieldRules.Proofs.Settings.Variables
import FieldRules.Proofs.Validator.Building
import FieldRules.TypeRef.Display
