import AssetShell.Interchange.Identifiable
import AssetShell.Proofs.Interchange.ElementCodecs

/-!
# The codecs of identifiables

Shells, submodels and concept descriptions have formats with their identity as a part, and the
identifiables are a family with a tag.
-/

namespace AssetShell

variable {n : Nat}

def AssetKind.codec : Codec AssetKind := ⟨decoder, toJson, fun _ => []⟩

@[simp] theorem AssetKind.codec_lawful : codec.Lawful n :=
  Codec.named_lawful (fun k => by cases k <;> decide) fun a b => by cases a <;> cases b <;> decide

namespace Resource

def members (r : Resource) : List (String × Json) :=
  [("path", .string r.path), ("contentType", .string r.contentType)]

def format : Format Resource where
  blank := ⟨"", ""⟩
  components := [
    .required "path" .string path fun r v => { r with path := v },
    .required "contentType" .string contentType fun r v => { r with contentType := v }]

theorem format_lawful : format.Lawful := by
  constructor
  case names => decide
  case ext =>
    rintro ⟨⟩ ⟨⟩
    simp [format, Component.required]
  all_goals simp [format, Component.required]

theorem format_writes : format.Writes members := fun _ => .of_eq rfl

theorem format_pieces : format.LawfulPieces (fun _ => []) n where
  component := by simp [format]
  part := by simp [format]
  vacant := by simp [format]
  references := by simp

def codec : Codec Resource := ⟨scheme.decoder, toJson, fun _ => []⟩

@[simp] theorem codec_lawful : codec.Lawful n :=
  Format.codec_lawful format_lawful format_writes format_pieces

end Resource

namespace SpecificAssetId

def members (a : SpecificAssetId) : List (String × Json) :=
  ("name", .string a.name) :: ("value", .string a.value)
    :: Json.optionalMember "externalSubjectId" (a.externalSubjectId.map Reference.toJson)
    ++ a.semantics.members

def format : Format SpecificAssetId where
  blank := { name := "", value := "" }
  components := [
    .required "name" .string name fun a v => { a with name := v },
    .required "value" .string value fun a v => { a with value := v },
    .optional "externalSubjectId" Reference.codec externalSubjectId
      fun a v => { a with externalSubjectId := v }]
  parts := [⟨Semantics, Semantics.object, semantics, fun a v => { a with semantics := v }⟩]

theorem format_lawful : format.Lawful := by
  constructor
  case names => decide
  case ext =>
    rintro ⟨⟩ ⟨⟩
    simp +contextual [format, Component.required, Component.optional]
  all_goals simp [format, Component.required, Component.optional]

theorem format_writes : format.Writes members := fun a => by
  simp [members, format, Format.ownMembers, Format.partMembers, Codec.string, Reference.codec,
    Semantics.object]

theorem format_pieces : format.LawfulPieces references n where
  component := by simp [format]
  part := by simp [format]
  vacant := by simp [format]
  references := by
    simp [references, format, Component.required, Component.optional, Codec.string,
      Reference.codec, Semantics.object]

def codec : Codec SpecificAssetId := ⟨scheme.decoder, toJson, references⟩

@[simp] theorem codec_lawful : codec.Lawful n :=
  Format.codec_lawful format_lawful format_writes format_pieces

end SpecificAssetId

namespace AssetInformation

def members (a : AssetInformation) : List (String × Json) :=
  ("assetKind", a.assetKind.toJson)
    :: Json.optionalMember "globalAssetId" (a.globalAssetId.map .string)
    ++ Json.listMember "specificAssetIds" (a.specificAssetIds.map SpecificAssetId.toJson)
    ++ Json.optionalMember "assetType" (a.assetType.map .string)
    ++ Json.optionalMember "defaultThumbnail" (a.defaultThumbnail.map Resource.toJson)

def format : Format AssetInformation where
  blank := { assetKind := .type }
  components := [
    .required "assetKind" AssetKind.codec assetKind fun a v => { a with assetKind := v },
    .optional "globalAssetId" .string globalAssetId fun a v => { a with globalAssetId := v },
    .list "specificAssetIds" SpecificAssetId.codec specificAssetIds
      fun a v => { a with specificAssetIds := v },
    .optional "assetType" .string assetType fun a v => { a with assetType := v },
    .optional "defaultThumbnail" Resource.codec defaultThumbnail
      fun a v => { a with defaultThumbnail := v }]

theorem format_lawful : format.Lawful := by
  constructor
  case names => decide
  case ext =>
    rintro ⟨⟩ ⟨⟩
    simp +contextual [format, Component.required, Component.optional, Component.list]
  all_goals simp [format, Component.required, Component.optional, Component.list]

theorem format_writes : format.Writes members := fun a => by
  simp [members, format, Format.ownMembers, Format.partMembers, Codec.string, AssetKind.codec,
    SpecificAssetId.codec, Resource.codec]

theorem format_pieces : format.LawfulPieces references n where
  component := by simp [format]
  part := by simp [format]
  vacant := by simp [format]
  references := by
    simp [references, format, Component.required, Component.optional, Component.list, Codec.string,
      AssetKind.codec, SpecificAssetId.codec, Resource.codec]

def codec : Codec AssetInformation := ⟨scheme.decoder, toJson, references⟩

@[simp] theorem codec_lawful : codec.Lawful n :=
  Format.codec_lawful format_lawful format_writes format_pieces

end AssetInformation

def Part.identity {σ : Type} (get : σ → Identity) (set : σ → Identity → σ) : Part σ :=
  ⟨Identity, Identity.object, get, set⟩

namespace Shell

def format : Format Shell where
  blank := { identity := { id := "" }, assetInformation := { assetKind := .type } }
  components := [
    .required "assetInformation" AssetInformation.codec assetInformation
      fun s v => { s with assetInformation := v },
    .optional "derivedFrom" Reference.codec derivedFrom fun s v => { s with derivedFrom := v },
    .list "submodels" Reference.codec submodels fun s v => { s with submodels := v },
    .dataSpecifications dataSpecifications fun s v => { s with dataSpecifications := v }]
  parts := [.identity identity fun s v => { s with identity := v }]

theorem format_lawful : format.Lawful := by
  constructor
  case names => decide
  case ext =>
    rintro ⟨⟩ ⟨⟩
    simp +contextual [format, Part.identity, Component.dataSpecifications, Component.required,
      Component.optional, Component.list, Component.withAlias]
  all_goals
    simp [format, Part.identity, Component.dataSpecifications, Component.required,
      Component.optional, Component.list, Component.withAlias]

theorem format_writes : format.Writes members := Format.writes_of_parts_first fun s => by
  simp [members, dataSpecificationMembers, format, Format.ownMembers, Format.partMembers,
    Part.identity, Identity.object, Component.dataSpecifications, AssetInformation.codec,
    Reference.codec]

theorem format_pieces : format.LawfulPieces references n where
  component := by simp [format, Component.dataSpecifications]
  part := by simp [format, Part.identity]
  vacant := by simp [format, Component.dataSpecifications]
  references := by
    simp [references, format, Part.identity, Identity.object, Component.dataSpecifications,
      Component.required, Component.optional, Component.list, Component.withAlias,
      AssetInformation.codec, Reference.codec, or_assoc]

def object : ObjectCodec Shell := ⟨scheme, format.known, members, references⟩

@[simp] theorem object_lawful : object.Lawful n :=
  Format.object_lawful format_lawful format_writes format_pieces

theorem codec_lawful : object.codec.Lawful n :=
  Format.codec_lawful format_lawful format_writes format_pieces

end Shell

namespace Submodel

def format : Format Submodel where
  blank := { identity := { id := "" } }
  components := [
    .defaulted "kind" ModellingKind.codec kind fun s v => { s with kind := v },
    .qualifiers qualifiers fun s v => { s with qualifiers := v },
    .dataSpecifications dataSpecifications fun s v => { s with dataSpecifications := v },
    .list "submodelElements" Element.codec elements fun s v => { s with elements := v }]
  parts := [
    .identity identity fun s v => { s with identity := v },
    ⟨Semantics, Semantics.object, semantics, fun s v => { s with semantics := v }⟩]

theorem format_lawful : format.Lawful := by
  constructor
  case names => decide
  case ext =>
    rintro ⟨⟩ ⟨⟩
    simp +contextual [format, Part.identity, Component.qualifiers, Component.dataSpecifications,
      Component.required, Component.defaulted, Component.list, Component.withAlias]
  all_goals
    simp [format, Part.identity, Component.qualifiers, Component.dataSpecifications,
      Component.required, Component.defaulted, Component.list, Component.withAlias]

/-- Behind the kind, which is written between the two parts. -/
def rest (s : Submodel) : List (String × Json) :=
  qualifierMembers s.qualifiers ++ dataSpecificationMembers s.dataSpecifications
    ++ Json.listMember "submodelElements" (s.elements.map Element.toJson)

theorem format_writes : format.Writes members := fun s => by
  have hOwn : format.ownMembers s = [("kind", s.kind.toJson)] ++ s.rest := by
    simp [rest, format, Format.ownMembers, Component.qualifiers, Component.dataSpecifications,
      qualifierMembers, dataSpecificationMembers, ModellingKind.codec, Qualifier.codec,
      Reference.codec, Element.codec]
  have hParts : format.partMembers s = s.identity.members ++ s.semantics.members := by
    simp [format, Format.partMembers, Part.identity, Identity.object, Semantics.object]
  have hMembers : members s =
      s.identity.members ++ ([("kind", s.kind.toJson)] ++ s.semantics.members) ++ s.rest := by
    simp [members, ownMembers, rest]
  rw [hOwn, hParts, hMembers]
  calc s.identity.members ++ ([("kind", s.kind.toJson)] ++ s.semantics.members) ++ s.rest
    List.Perm _
      ([("kind", s.kind.toJson)] ++ (s.identity.members ++ s.semantics.members) ++ s.rest) :=
      (List.perm_append_comm_assoc _ _ _).append_right _
    _ = [("kind", s.kind.toJson)] ++ (s.identity.members ++ s.semantics.members ++ s.rest) :=
      List.append_assoc _ _ _
    List.Perm _
      ([("kind", s.kind.toJson)] ++ (s.rest ++ (s.identity.members ++ s.semantics.members))) :=
      List.perm_append_comm.append_left _
    _ = [("kind", s.kind.toJson)] ++ s.rest ++ (s.identity.members ++ s.semantics.members) :=
      (List.append_assoc _ _ _).symm

theorem format_pieces : format.LawfulPieces references n where
  component := by simp [format, Component.qualifiers, Component.dataSpecifications]
  part := by simp [format, Part.identity]
  vacant := by
    simp [format, Component.qualifiers, Component.dataSpecifications, ModellingKind.codec,
      ModellingKind.toJson]
  references := by
    simp [references, format, Part.identity, Identity.object, Semantics.object,
      Component.qualifiers, Component.dataSpecifications, Component.required, Component.defaulted,
      Component.list, Component.withAlias, ModellingKind.codec, Qualifier.codec, Reference.codec,
      Element.codec, or_assoc]

def object : ObjectCodec Submodel := ⟨scheme, format.known, members, references⟩

@[simp] theorem object_lawful : object.Lawful n :=
  Format.object_lawful format_lawful format_writes format_pieces

theorem codec_lawful : object.codec.Lawful n :=
  Format.codec_lawful format_lawful format_writes format_pieces

end Submodel

namespace ConceptDescription

def format : Format ConceptDescription where
  blank := { identity := { id := "" } }
  components := [
    .list "isCaseOf" Reference.codec isCaseOf fun c v => { c with isCaseOf := v },
    .dataSpecifications dataSpecifications fun c v => { c with dataSpecifications := v }]
  parts := [.identity identity fun c v => { c with identity := v }]

theorem format_lawful : format.Lawful := by
  constructor
  case names => decide
  case ext =>
    rintro ⟨⟩ ⟨⟩
    simp +contextual [format, Part.identity, Component.dataSpecifications, Component.list,
      Component.withAlias]
  all_goals
    simp [format, Part.identity, Component.dataSpecifications, Component.list, Component.withAlias]

theorem format_writes : format.Writes members := Format.writes_of_parts_first fun c => by
  simp [members, dataSpecificationMembers, format, Format.ownMembers, Format.partMembers,
    Part.identity, Identity.object, Component.dataSpecifications, Reference.codec]

theorem format_pieces : format.LawfulPieces references n where
  component := by simp [format, Component.dataSpecifications]
  part := by simp [format, Part.identity]
  vacant := by simp [format, Component.dataSpecifications]
  references := by
    simp [references, format, Part.identity, Identity.object, Component.dataSpecifications,
      Component.list, Component.withAlias, Reference.codec, or_assoc]

def object : ObjectCodec ConceptDescription := ⟨scheme, format.known, members, references⟩

@[simp] theorem object_lawful : object.Lawful n :=
  Format.object_lawful format_lawful format_writes format_pieces

theorem codec_lawful : object.codec.Lawful n :=
  Format.codec_lawful format_lawful format_writes format_pieces

end ConceptDescription

/-! ## All identifiables -/

namespace Identifiable

def variant? : Kind → Option (Tagged.Variant Identifiable)
  | .shell => some ⟨Shell, Shell.object, .shell⟩
  | .submodel => some ⟨Submodel, Submodel.object, .submodel⟩
  | .conceptDescription => some ⟨ConceptDescription, ConceptDescription.object, .conceptDescription⟩

def family : Tagged.Family Kind Identifiable where
  name := Kind.name
  all := Kind.all
  variant? := variant?
  tag := kind
  members := members
  references := references

theorem family_lawful : family.Lawful n where
  pick i := by cases i <;> rfl
  covers i := by
    cases i with
    | shell s => exact ⟨_, s, rfl, rfl⟩
    | submodel s => exact ⟨_, s, rfl, rfl⟩
    | conceptDescription c => exact ⟨_, c, rfl, rfl⟩
  members k x hx b := by cases k <;> cases hx <;> rfl
  references k x hx b := by cases k <;> cases hx <;> rfl
  untagged k x hx := by
    cases k <;> cases hx
    all_goals decide
  object k x hx := by
    cases k <;> cases hx
    all_goals simp

def codec : Codec Identifiable := ⟨decoder, toJson, references⟩

theorem decoder_eq : decoder = family.codec.decoder := by
  refine congrArg (Tagged.split Kind.name Kind.all).refine (funext fun found => ?_)
  obtain ⟨k, es⟩ := found
  cases k <;> rfl

theorem codec_eq : codec = family.codec := by
  rw [codec, decoder_eq]
  rfl

@[simp] theorem codec_lawful : codec.Lawful n := by
  rw [codec_eq]
  exact family_lawful.codec_lawful_succ.mono n.le_succ

end Identifiable

end AssetShell
