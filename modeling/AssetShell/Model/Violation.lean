import AssetShell.Literal.Check
import AssetShell.Model.ElementKind
import AssetShell.Reference.Key
import AssetShell.Text.Quoted

/-!
# Violations

The rules that an entity can break by itself: a literal that does not fit its datatype, and rules
on what must be there together.
-/

namespace AssetShell

inductive RelationshipEnd
  | first
  | second
  deriving DecidableEq, Repr

def RelationshipEnd.name : RelationshipEnd → String
  | .first => "first"
  | .second => "second"

inductive ConstraintFault
  | supplementalWithoutSemanticId
  | versionTooLong (version : String)
  | revisionTooLong (revision : String)
  | revisionWithoutVersion
  | propertyWithoutValue (idShort : Option String)
  | rangeWithoutBounds (idShort : Option String)
  | relationshipEnd (which : RelationshipEnd)
  | derivedFromNoShell
  | noSubmodel (index : Nat)
  | itemKind (wanted found : ElementKind) (index : Nat)
  | itemValueType (wanted found : Datatype) (index : Nat)
  deriving DecidableEq, Repr

namespace ConstraintFault

def rule : ConstraintFault → String
  | .supplementalWithoutSemanticId => "supplemental-semantic-id-requires-semantic-id"
  | .versionTooLong _ => "version-too-long"
  | .revisionTooLong _ => "revision-too-long"
  | .revisionWithoutVersion => "revision-requires-version"
  | .propertyWithoutValue _ => "property-requires-value-or-value-id"
  | .rangeWithoutBounds _ => "range-requires-min-or-max"
  | .relationshipEnd _ => "relationship-requires-model-reference"
  | .derivedFromNoShell => "derived-from-must-reference-shell"
  | .noSubmodel _ => "submodel-reference-must-target-submodel"
  | .itemKind .. => "list-element-kind-mismatch"
  | .itemValueType .. => "list-value-type-mismatch"

def explanation : ConstraintFault → String
  | .supplementalWithoutSemanticId =>
    "supplementalSemanticId is set but semanticId is missing"
  | .versionTooLong version => "version '" ++ version ++ "' exceeds 4 characters"
  | .revisionTooLong revision => "revision '" ++ revision ++ "' exceeds 4 characters"
  | .revisionWithoutVersion => "revision is set but version is missing"
  | .propertyWithoutValue idShort =>
    "Property " ++ Quoted.ofOption idShort ++ " has neither a value nor a valueId"
  | .rangeWithoutBounds idShort =>
    "Range " ++ Quoted.ofOption idShort ++ " has neither min nor max"
  | .relationshipEnd which =>
    "'" ++ which.name ++ "' of a RelationshipElement must be a ModelReference"
  | .derivedFromNoShell =>
    "derivedFrom must be a ModelReference to an AssetAdministrationShell"
  | .noSubmodel index => s!"submodels[{index}] must be a ModelReference to a Submodel"
  | .itemKind wanted found index =>
    s!"SubmodelElementList expects {wanted.name} elements, item {index} is {found.name}"
  | .itemValueType wanted found index =>
    s!"SubmodelElementList expects valueType {wanted.name}, item {index} declares {found.name}"

def message (f : ConstraintFault) : String := f.rule ++ ": " ++ f.explanation

end ConstraintFault

inductive Violation
  | literal (fault : LiteralFault)
  | constraint (fault : ConstraintFault)
  deriving DecidableEq, Repr

namespace Violation

def rule : Violation → String
  | .literal fault => fault.rule
  | .constraint fault => fault.rule

def message : Violation → String
  | .literal fault => fault.message
  | .constraint fault => fault.message

end Violation

abbrev Checked := Except Violation Unit

end AssetShell
