/-!
# Kinds of submodel elements

Nine kinds of elements, and two wider kinds that a list may ask for. A list of a wider kind admits
every element of it; a list of a plain kind admits that kind only.
-/

namespace AssetShell

inductive ElementKind
  | submodelElement
  | dataElement
  | property
  | multiLanguageProperty
  | range
  | file
  | blob
  | referenceElement
  | relationshipElement
  | submodelElementCollection
  | submodelElementList
  deriving DecidableEq, Repr

namespace ElementKind

def all : List ElementKind :=
  [.submodelElement, .dataElement, .property, .multiLanguageProperty, .range, .file, .blob,
    .referenceElement, .relationshipElement, .submodelElementCollection, .submodelElementList]

def plain : List ElementKind :=
  [.property, .multiLanguageProperty, .range, .file, .blob, .referenceElement,
    .relationshipElement, .submodelElementCollection, .submodelElementList]

def name : ElementKind → String
  | .submodelElement => "SubmodelElement"
  | .dataElement => "DataElement"
  | .property => "Property"
  | .multiLanguageProperty => "MultiLanguageProperty"
  | .range => "Range"
  | .file => "File"
  | .blob => "Blob"
  | .referenceElement => "ReferenceElement"
  | .relationshipElement => "RelationshipElement"
  | .submodelElementCollection => "SubmodelElementCollection"
  | .submodelElementList => "SubmodelElementList"

def isData : ElementKind → Bool
  | .dataElement | .property | .multiLanguageProperty | .range | .file | .blob
  | .referenceElement => true
  | _ => false

/-- Whether a list that asks for `wanted` takes an element of kind `found`. -/
def admits (wanted found : ElementKind) : Bool :=
  match wanted with
  | .submodelElement => true
  | .dataElement => found.isData
  | wanted => wanted = found

end ElementKind

end AssetShell
