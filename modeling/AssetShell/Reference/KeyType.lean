/-!
# Key types

The twenty-four types of a key, and the sets of them that the grammar of references names.
-/

namespace AssetShell

inductive KeyType
  | annotatedRelationshipElement
  | assetAdministrationShell
  | basicEventElement
  | blob
  | capability
  | conceptDescription
  | dataElement
  | entity
  | eventElement
  | file
  | fragmentReference
  | globalReference
  | identifiable
  | multiLanguageProperty
  | operation
  | property
  | range
  | referable
  | referenceElement
  | relationshipElement
  | submodel
  | submodelElement
  | submodelElementCollection
  | submodelElementList
  deriving DecidableEq, Repr

namespace KeyType

def all : List KeyType :=
  [.annotatedRelationshipElement, .assetAdministrationShell, .basicEventElement, .blob,
    .capability, .conceptDescription, .dataElement, .entity, .eventElement, .file,
    .fragmentReference, .globalReference, .identifiable, .multiLanguageProperty, .operation,
    .property, .range, .referable, .referenceElement, .relationshipElement, .submodel,
    .submodelElement, .submodelElementCollection, .submodelElementList]

theorem mem_all (t : KeyType) : t ∈ all := by cases t <;> decide

def name : KeyType → String
  | .annotatedRelationshipElement => "AnnotatedRelationshipElement"
  | .assetAdministrationShell => "AssetAdministrationShell"
  | .basicEventElement => "BasicEventElement"
  | .blob => "Blob"
  | .capability => "Capability"
  | .conceptDescription => "ConceptDescription"
  | .dataElement => "DataElement"
  | .entity => "Entity"
  | .eventElement => "EventElement"
  | .file => "File"
  | .fragmentReference => "FragmentReference"
  | .globalReference => "GlobalReference"
  | .identifiable => "Identifiable"
  | .multiLanguageProperty => "MultiLanguageProperty"
  | .operation => "Operation"
  | .property => "Property"
  | .range => "Range"
  | .referable => "Referable"
  | .referenceElement => "ReferenceElement"
  | .relationshipElement => "RelationshipElement"
  | .submodel => "Submodel"
  | .submodelElement => "SubmodelElement"
  | .submodelElementCollection => "SubmodelElementCollection"
  | .submodelElementList => "SubmodelElementList"

def ofName? (name : String) : Option KeyType := all.find? fun t => t.name = name

theorem ofName?_name (t : KeyType) : ofName? t.name = some t := by cases t <;> rfl

theorem name_injective {a b : KeyType} (h : a.name = b.name) : a = b :=
  Option.some.inj ((ofName?_name a).symm.trans ((congrArg ofName? h).trans (ofName?_name b)))

def modelRoots : List KeyType := [.assetAdministrationShell, .submodel, .conceptDescription]

def externalRoots : List KeyType := [.globalReference]

def fragments : List KeyType :=
  [.submodelElement, .property, .multiLanguageProperty, .range, .referenceElement,
    .relationshipElement, .annotatedRelationshipElement, .submodelElementCollection,
    .submodelElementList, .file, .blob, .entity, .basicEventElement, .operation,
    .fragmentReference]

/-- The types a fragment reference may directly follow. -/
def fragmentHolders : List KeyType := [.file, .blob]

def externalEnds : List KeyType := [.globalReference, .fragmentReference]

end KeyType

end AssetShell
