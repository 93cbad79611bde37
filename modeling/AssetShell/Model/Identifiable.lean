import AssetShell.Model.Element

/-!
# Identifiables

Shells, submodels and concept descriptions: what a document holds at its top.
-/

namespace AssetShell

inductive AssetKind
  | type
  | individual
  | notApplicable
  deriving DecidableEq, Repr

namespace AssetKind

def all : List AssetKind := [.type, .individual, .notApplicable]

def name : AssetKind → String
  | .type => "Type"
  | .individual => "Instance"
  | .notApplicable => "NotApplicable"

end AssetKind

structure Resource where
  path : String
  contentType : String
  deriving DecidableEq, Repr

structure SpecificAssetId where
  name : String
  value : String
  externalSubjectId : Option Reference := none
  semantics : Semantics := {}
  deriving DecidableEq, Repr

structure AssetInformation where
  assetKind : AssetKind
  globalAssetId : Option String := none
  specificAssetIds : List SpecificAssetId := []
  assetType : Option String := none
  defaultThumbnail : Option Resource := none
  deriving DecidableEq, Repr

structure Shell where
  identity : Identity
  assetInformation : AssetInformation
  derivedFrom : Option Reference := none
  submodels : List Reference := []
  dataSpecifications : List Reference := []
  deriving DecidableEq, Repr

structure Submodel where
  identity : Identity
  kind : ModellingKind := .individual
  semantics : Semantics := {}
  qualifiers : List Qualifier := []
  dataSpecifications : List Reference := []
  elements : List Element := []
  deriving Repr

structure ConceptDescription where
  identity : Identity
  isCaseOf : List Reference := []
  dataSpecifications : List Reference := []
  deriving DecidableEq, Repr

inductive Identifiable
  | shell (s : Shell)
  | submodel (s : Submodel)
  | conceptDescription (c : ConceptDescription)
  deriving Repr

def Submodel.element? (s : Submodel) (idShort : String) : Option Element :=
  s.elements.find? fun e => e.idShort = some idShort

namespace Identifiable

inductive Kind
  | shell
  | submodel
  | conceptDescription
  deriving DecidableEq, Repr

def Kind.all : List Kind := [.shell, .submodel, .conceptDescription]

def Kind.name : Kind → String
  | .shell => "AssetAdministrationShell"
  | .submodel => "Submodel"
  | .conceptDescription => "ConceptDescription"

def kind : Identifiable → Kind
  | .shell _ => .shell
  | .submodel _ => .submodel
  | .conceptDescription _ => .conceptDescription

def identity : Identifiable → Identity
  | .shell s => s.identity
  | .submodel s => s.identity
  | .conceptDescription c => c.identity

end Identifiable

end AssetShell
