import AssetShell.Interchange.Identifiable

/-!
# Patterns of entities

What is asked of a value that is decoded, without what becomes of it: which names an object is asked
for, and what is asked of the values under them. The blocks of a record ask the same object as the
record itself, so their slots are slots of the record.
-/

namespace AssetShell

inductive RecordKind
  | key
  | reference
  | langString
  | semantics
  | qualifier
  | extension
  | referable
  | administrativeInformation
  | identity
  | elementAttributes
  | property
  | multiLanguageProperty
  | range
  | file
  | blob
  | referenceElement
  | relationshipElement
  | elementCollection
  | elementList
  | resource
  | specificAssetId
  | assetInformation
  | shell
  | submodel
  | conceptDescription

/-- What is asked of a value. A plain value is taken as it stands, a nullable one may be null, and a
tagged object is asked for what the record of its tag asks for. -/
inductive Pattern
  | plain
  | datatype
  | nullable (p : Pattern)
  | list (p : Pattern)
  | record (k : RecordKind)
  | tagged (variants : List (String × RecordKind))

namespace Pattern

def isNullable : Pattern → Bool
  | .nullable _ => true
  | _ => false

theorem eq_nullable_of_isNullable {p : Pattern} (h : p.isNullable = true) :
    ∃ q, p = .nullable q := by
  cases p with
  | nullable q => exact ⟨q, rfl⟩
  | _ => cases h

def reference : Pattern := .record .reference

@[simp] theorem reference_ne_nullable (p : Pattern) : reference ≠ .nullable p := nofun

def elementVariants : List (String × RecordKind) := [
  ("Property", .property),
  ("MultiLanguageProperty", .multiLanguageProperty),
  ("Range", .range),
  ("File", .file),
  ("Blob", .blob),
  ("ReferenceElement", .referenceElement),
  ("RelationshipElement", .relationshipElement),
  ("SubmodelElementCollection", .elementCollection),
  ("SubmodelElementList", .elementList)]

def element : Pattern := .tagged elementVariants

def identifiableVariants : List (String × RecordKind) := [
  ("AssetAdministrationShell", .shell),
  ("Submodel", .submodel),
  ("ConceptDescription", .conceptDescription)]

def identifiable : Pattern := .tagged identifiableVariants

end Pattern

/-- The names that a value may stand under, and what is asked of it. -/
structure Slot where
  names : List String
  pattern : Pattern

def Slot.tag : Slot := ⟨[Tagged.tagName], .plain⟩

/-! ## The slots of the records -/

def Slot.dataSpecifications : Slot :=
  ⟨["dataSpecifications", "dataSpecification"], .list .reference⟩

def Slot.qualifiers : Slot := ⟨["qualifiers", "qualifier"], .list (.record .qualifier)⟩

def Semantics.slots : List Slot := [
  ⟨["semanticId"], .nullable .reference⟩,
  ⟨["supplementalSemanticIds", "supplementalSemanticId"], .list .reference⟩]

def Referable.slots : List Slot := [
  ⟨["category"], .nullable .plain⟩,
  ⟨["idShort"], .nullable .plain⟩,
  ⟨["displayName"], .list (.record .langString)⟩,
  ⟨["description"], .list (.record .langString)⟩,
  ⟨["extensions", "extension"], .list (.record .extension)⟩]

def Identity.ownSlots : List Slot := [
  ⟨["id"], .plain⟩,
  ⟨["administration"], .nullable (.record .administrativeInformation)⟩]

def Identity.slots : List Slot := ownSlots ++ Referable.slots

def ElementAttributes.ownSlots : List Slot := [.qualifiers, .dataSpecifications]

def ElementAttributes.slots : List Slot := ownSlots ++ Referable.slots ++ Semantics.slots

/-- The slots that a record has itself. -/
@[simp] def RecordKind.ownSlots : RecordKind → List Slot
  | .key => [⟨["type"], .plain⟩, ⟨["value"], .plain⟩]
  | .reference => [⟨["type"], .plain⟩, ⟨["keys"], .list (.record .key)⟩]
  | .langString => [⟨["language"], .plain⟩, ⟨["text"], .plain⟩]
  | .semantics => Semantics.slots
  | .qualifier => [
    ⟨["type"], .plain⟩,
    ⟨["valueType"], .nullable .datatype⟩,
    ⟨["value"], .nullable .plain⟩,
    ⟨["valueId"], .nullable .reference⟩]
  | .extension => [
    ⟨["name"], .plain⟩,
    ⟨["valueType"], .nullable .datatype⟩,
    ⟨["value"], .nullable .plain⟩,
    ⟨["refersTo"], .list .reference⟩]
  | .referable => Referable.slots
  | .administrativeInformation => [
    ⟨["version"], .nullable .plain⟩,
    ⟨["revision"], .nullable .plain⟩,
    ⟨["creator"], .nullable .reference⟩,
    ⟨["templateId"], .nullable .plain⟩]
  | .identity => Identity.ownSlots
  | .elementAttributes => ElementAttributes.ownSlots
  | .property => [
    ⟨["valueType"], .datatype⟩,
    ⟨["value"], .nullable .plain⟩,
    ⟨["valueId"], .nullable .reference⟩]
  | .multiLanguageProperty => [
    ⟨["value"], .list (.record .langString)⟩,
    ⟨["valueId"], .nullable .reference⟩]
  | .range => [
    ⟨["valueType"], .datatype⟩,
    ⟨["min"], .nullable .plain⟩,
    ⟨["max"], .nullable .plain⟩]
  | .file => [⟨["contentType"], .plain⟩, ⟨["value"], .plain⟩]
  | .blob => [⟨["contentType"], .plain⟩, ⟨["value"], .plain⟩]
  | .referenceElement => [⟨["value"], .reference⟩]
  | .relationshipElement => [⟨["first"], .reference⟩, ⟨["second"], .reference⟩]
  | .elementCollection => [⟨["orderRelevant"], .plain⟩, ⟨["value"], .list .element⟩]
  | .elementList => [
    ⟨["orderRelevant"], .plain⟩,
    ⟨["typeValueListElement"], .nullable .plain⟩,
    ⟨["semanticIdListElement"], .nullable .reference⟩,
    ⟨["valueTypeListElement"], .nullable .datatype⟩,
    ⟨["value"], .list .element⟩]
  | .resource => [⟨["path"], .plain⟩, ⟨["contentType"], .plain⟩]
  | .specificAssetId => [
    ⟨["name"], .plain⟩,
    ⟨["value"], .plain⟩,
    ⟨["externalSubjectId"], .nullable .reference⟩]
  | .assetInformation => [
    ⟨["assetKind"], .plain⟩,
    ⟨["globalAssetId"], .nullable .plain⟩,
    ⟨["specificAssetIds"], .list (.record .specificAssetId)⟩,
    ⟨["assetType"], .nullable .plain⟩,
    ⟨["defaultThumbnail"], .nullable (.record .resource)⟩]
  | .shell => [
    ⟨["assetInformation"], .record .assetInformation⟩,
    ⟨["derivedFrom"], .nullable .reference⟩,
    ⟨["submodels"], .list .reference⟩,
    .dataSpecifications]
  | .submodel => [
    ⟨["kind"], .plain⟩,
    .qualifiers,
    .dataSpecifications,
    ⟨["submodelElements"], .list .element⟩]
  | .conceptDescription => [⟨["isCaseOf"], .list .reference⟩, .dataSpecifications]

/-- The slots of the blocks of a record, block by block. -/
@[simp] def RecordKind.blocks : RecordKind → List (List Slot)
  | .qualifier | .extension | .specificAssetId => [Semantics.slots]
  | .identity => [Referable.slots]
  | .elementAttributes => [Referable.slots, Semantics.slots]
  | .property | .multiLanguageProperty | .range | .file | .blob | .referenceElement
  | .relationshipElement | .elementCollection | .elementList => [ElementAttributes.slots]
  | .shell | .conceptDescription => [Identity.slots]
  | .submodel => [Identity.slots, Semantics.slots]
  | .key | .reference | .langString | .semantics | .referable | .administrativeInformation
  | .resource | .assetInformation => []

def RecordKind.slots (k : RecordKind) : List Slot := k.ownSlots ++ k.blocks.flatten

/-- Every name is looked at for one purpose only, also with the tag. -/
theorem RecordKind.names_nodup (k : RecordKind) :
    ((Slot.tag :: k.slots).flatMap Slot.names).Nodup := by
  cases k <;> decide

end AssetShell
