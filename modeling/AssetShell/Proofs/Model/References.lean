import AssetShell.Model.Identifiable

/-!
# The references of an entity

All references that stand anywhere in an entity, at any depth.
-/

namespace AssetShell

def Semantics.references (s : Semantics) : List Reference :=
  s.semanticId.toList ++ s.supplementalSemanticIds

def Qualifier.references (q : Qualifier) : List Reference :=
  q.valueId.toList ++ q.semantics.references

def Extension.references (e : Extension) : List Reference := e.refersTo ++ e.semantics.references

def Referable.references (r : Referable) : List Reference :=
  r.extensions.flatMap Extension.references

def AdministrativeInformation.references (a : AdministrativeInformation) : List Reference :=
  a.creator.toList

def Identity.references (i : Identity) : List Reference :=
  i.administration.toList.flatMap AdministrativeInformation.references ++ i.referable.references

def ElementAttributes.references (a : ElementAttributes) : List Reference :=
  a.qualifiers.flatMap Qualifier.references ++ a.dataSpecifications ++ a.referable.references
    ++ a.semantics.references

/-! ## Elements -/

def Property.references (p : Property) : List Reference := p.valueId.toList ++ p.common.references

def MultiLanguageProperty.references (p : MultiLanguageProperty) : List Reference :=
  p.valueId.toList ++ p.common.references

def Range.references (r : Range) : List Reference := r.common.references

def File.references (f : File) : List Reference := f.common.references

def Blob.references (b : Blob) : List Reference := b.common.references

def ReferenceElement.references (r : ReferenceElement) : List Reference :=
  r.value :: r.common.references

def RelationshipElement.references (r : RelationshipElement) : List Reference :=
  r.first :: r.second :: r.common.references

namespace Element

mutual

def references : Element → List Reference
  | .property p => p.references
  | .multiLanguageProperty p => p.references
  | .range r => r.references
  | .file f => f.references
  | .blob b => b.references
  | .referenceElement r => r.references
  | .relationship r => r.references
  | .collection head items => referencesOfAll items ++ head.common.references
  | .list head items =>
    head.itemSemanticId.toList ++ referencesOfAll items ++ head.common.references

def referencesOfAll : List Element → List Reference
  | [] => []
  | e :: r => e.references ++ referencesOfAll r

end

theorem referencesOfAll_eq_flatMap (items : List Element) :
    referencesOfAll items = items.flatMap references := by
  induction items with
  | nil => rfl
  | cons e r ih => rw [referencesOfAll, ih, List.flatMap_cons]

end Element

def ElementCollection.references (c : ElementCollection) : List Reference :=
  c.items.flatMap Element.references ++ c.head.common.references

def ElementList.references (l : ElementList) : List Reference :=
  l.head.itemSemanticId.toList ++ l.items.flatMap Element.references ++ l.head.common.references

/-! ## Identifiables -/

def SpecificAssetId.references (a : SpecificAssetId) : List Reference :=
  a.externalSubjectId.toList ++ a.semantics.references

def AssetInformation.references (a : AssetInformation) : List Reference :=
  a.specificAssetIds.flatMap SpecificAssetId.references

def Shell.references (s : Shell) : List Reference :=
  s.assetInformation.references ++ s.derivedFrom.toList ++ s.submodels ++ s.dataSpecifications
    ++ s.identity.references

def Submodel.references (s : Submodel) : List Reference :=
  s.qualifiers.flatMap Qualifier.references ++ s.dataSpecifications
    ++ s.elements.flatMap Element.references ++ s.identity.references ++ s.semantics.references

def ConceptDescription.references (c : ConceptDescription) : List Reference :=
  c.isCaseOf ++ c.dataSpecifications ++ c.identity.references

def Identifiable.references : Identifiable → List Reference
  | .shell s => s.references
  | .submodel s => s.references
  | .conceptDescription c => c.references

end AssetShell
