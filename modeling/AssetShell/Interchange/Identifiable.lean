import AssetShell.Interchange.Element
import AssetShell.Model.Identifiable

/-!
# Identifiables as objects

Shells, submodels and concept descriptions with their identity as a block. At the top of a document
an identifiable is a tagged object.
-/

namespace AssetShell

open Json (optionalMember listMember)

def AssetKind.decoder : Decoder AssetKind := .named name all

def AssetKind.toJson (k : AssetKind) : Json := .string k.name

namespace Resource

def scheme : Scheme Resource where
  blank := ⟨"", ""⟩
  fields := [
    .required "path" .string fun r v => { r with path := v },
    .required "contentType" .string fun r v => { r with contentType := v }]

def toJson (r : Resource) : Json :=
  .object [("path", .string r.path), ("contentType", .string r.contentType)]

end Resource

namespace SpecificAssetId

def scheme : Scheme SpecificAssetId where
  blank := { name := "", value := "" }
  fields := [
    .required "name" .string fun a v => { a with name := v },
    .required "value" .string fun a v => { a with value := v },
    .optional "externalSubjectId" Reference.decoder.optional
      fun a v => { a with externalSubjectId := v }]
  blocks := [Semantics.scheme.block fun a v => { a with semantics := v }]

def toJson (a : SpecificAssetId) : Json :=
  .object (("name", .string a.name) :: ("value", .string a.value)
    :: optionalMember "externalSubjectId" (a.externalSubjectId.map Reference.toJson)
    ++ a.semantics.members)

end SpecificAssetId

namespace AssetInformation

def scheme : Scheme AssetInformation where
  blank := { assetKind := .type }
  fields := [
    .required "assetKind" AssetKind.decoder fun a v => { a with assetKind := v },
    .optional "globalAssetId" Decoder.string.optional fun a v => { a with globalAssetId := v },
    .optional "specificAssetIds" SpecificAssetId.scheme.decoder.list
      fun a v => { a with specificAssetIds := v },
    .optional "assetType" Decoder.string.optional fun a v => { a with assetType := v },
    .optional "defaultThumbnail" Resource.scheme.decoder.optional
      fun a v => { a with defaultThumbnail := v }]

def toJson (a : AssetInformation) : Json :=
  .object (("assetKind", a.assetKind.toJson)
    :: optionalMember "globalAssetId" (a.globalAssetId.map .string)
    ++ listMember "specificAssetIds" (a.specificAssetIds.map SpecificAssetId.toJson)
    ++ optionalMember "assetType" (a.assetType.map .string)
    ++ optionalMember "defaultThumbnail" (a.defaultThumbnail.map Resource.toJson))

end AssetInformation

namespace Shell

def scheme : Scheme Shell where
  blank := { identity := { id := "" }, assetInformation := { assetKind := .type } }
  fields := [
    .required "assetInformation" AssetInformation.scheme.decoder
      fun s v => { s with assetInformation := v },
    .optional "derivedFrom" Reference.decoder.optional fun s v => { s with derivedFrom := v },
    .optional "submodels" Reference.decoder.list fun s v => { s with submodels := v },
    .dataSpecifications fun s v => { s with dataSpecifications := v }]
  blocks := [Identity.scheme.block fun s v => { s with identity := v }]

def members (s : Shell) : List (String × Json) :=
  s.identity.members ++ ("assetInformation", s.assetInformation.toJson)
    :: optionalMember "derivedFrom" (s.derivedFrom.map Reference.toJson)
    ++ listMember "submodels" (s.submodels.map Reference.toJson)
    ++ dataSpecificationMembers s.dataSpecifications

end Shell

namespace Submodel

def scheme : Scheme Submodel where
  blank := { identity := { id := "" } }
  fields := [
    .optional "kind" ModellingKind.decoder fun s v => { s with kind := v },
    .qualifiers fun s v => { s with qualifiers := v },
    .dataSpecifications fun s v => { s with dataSpecifications := v },
    .optional "submodelElements" Element.decoder.list fun s v => { s with elements := v }]
  blocks := [
    Identity.scheme.block fun s v => { s with identity := v },
    Semantics.scheme.block fun s v => { s with semantics := v }]

def ownMembers (s : Submodel) : List (String × Json) :=
  s.identity.members ++ ("kind", s.kind.toJson) :: s.semantics.members
    ++ qualifierMembers s.qualifiers ++ dataSpecificationMembers s.dataSpecifications

def members (s : Submodel) : List (String × Json) :=
  s.ownMembers ++ listMember "submodelElements" (s.elements.map Element.toJson)

def toJson (s : Submodel) : Json := .object s.members

end Submodel

namespace ConceptDescription

def scheme : Scheme ConceptDescription where
  blank := { identity := { id := "" } }
  fields := [
    .optional "isCaseOf" Reference.decoder.list fun c v => { c with isCaseOf := v },
    .dataSpecifications fun c v => { c with dataSpecifications := v }]
  blocks := [Identity.scheme.block fun c v => { c with identity := v }]

def members (c : ConceptDescription) : List (String × Json) :=
  c.identity.members ++ listMember "isCaseOf" (c.isCaseOf.map Reference.toJson)
    ++ dataSpecificationMembers c.dataSpecifications

end ConceptDescription

namespace Identifiable

def Kind.toJson (k : Kind) : Json := .string k.name

def ofMembers (members : List (String × Json)) : Kind → Decoded Identifiable
  | .shell => (Shell.scheme.ofMembers .kept members).map .shell
  | .submodel => (Submodel.scheme.ofMembers .kept members).map .submodel
  | .conceptDescription =>
    (ConceptDescription.scheme.ofMembers .kept members).map .conceptDescription

def decoder : Decoder Identifiable :=
  (Tagged.split Kind.name Kind.all).refine fun (kind, members) => ofMembers members kind

def members : Identifiable → List (String × Json)
  | .shell s => s.members
  | .submodel s => s.members
  | .conceptDescription c => c.members

def toJson (i : Identifiable) : Json := .object ((Tagged.tagName, i.kind.toJson) :: i.members)

end Identifiable

end AssetShell
