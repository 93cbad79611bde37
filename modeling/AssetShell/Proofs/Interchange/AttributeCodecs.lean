import AssetShell.Interchange.Attributes
import AssetShell.Proofs.Interchange.ReferenceCodec
import AssetShell.Proofs.Model.References

/-!
# The codecs of attributes

Each block of attributes has a format: its components and parts, of which its scheme reads the
fields and blocks and its members are the written form.
-/

namespace AssetShell

variable {n : Nat}

def Datatype.codec : Codec Datatype := ⟨.datatype, toJson, fun _ => []⟩

@[simp] theorem Datatype.codec_lawful : codec.Lawful n :=
  Codec.worded_lawful fun d _ => by cases d <;> rfl

def ModellingKind.codec : Codec ModellingKind := ⟨decoder, toJson, fun _ => []⟩

@[simp] theorem ModellingKind.codec_lawful : codec.Lawful n :=
  Codec.named_lawful (fun k => by cases k <;> decide) fun a b => by cases a <;> cases b <;> decide

namespace LangString

def members (l : LangString) : List (String × Json) :=
  [("language", .string l.language), ("text", .string l.text)]

def format : Format LangString where
  blank := ⟨"", ""⟩
  components := [
    .required "language" .string language fun l v => { l with language := v },
    .required "text" .string text fun l v => { l with text := v }]

theorem format_lawful : format.Lawful := by
  constructor
  case names => decide
  case ext =>
    rintro ⟨⟩ ⟨⟩
    simp [format, Component.required]
  all_goals simp [format, Component.required]

theorem format_writes : format.Writes members := fun _ => .of_eq rfl

theorem format_pieces : format.LawfulPieces (fun _ => []) n where
  component := by simp [format]
  part := by simp [format]
  vacant := by simp [format]
  references := by simp

def codec : Codec LangString := ⟨scheme.decoder, toJson, fun _ => []⟩

@[simp] theorem codec_lawful : codec.Lawful n :=
  Format.codec_lawful format_lawful format_writes format_pieces

end LangString

namespace Semantics

def format : Format Semantics where
  blank := {}
  components := [
    .optional "semanticId" Reference.codec semanticId fun s v => { s with semanticId := v },
    .withAlias
      (.list "supplementalSemanticIds" Reference.codec supplementalSemanticIds
        fun s v => { s with supplementalSemanticIds := v })
      "supplementalSemanticId"]

theorem format_lawful : format.Lawful := by
  constructor
  case names => decide
  case ext =>
    rintro ⟨⟩ ⟨⟩
    simp [format, Component.optional, Component.list, Component.withAlias]
  all_goals simp [format, Component.optional, Component.list, Component.withAlias]

theorem format_writes : format.Writes members := fun s => by
  simp [members, format, Format.ownMembers, Format.partMembers, Reference.codec]

theorem format_pieces : format.LawfulPieces references n where
  component := by simp [format]
  part := by simp [format]
  vacant := by simp [format]
  references := by
    simp [references, format, Component.optional, Component.list, Component.withAlias,
      Reference.codec]

def object : ObjectCodec Semantics := ⟨scheme, format.known, members, references⟩

@[simp] theorem object_lawful : object.Lawful n :=
  Format.object_lawful format_lawful format_writes format_pieces

@[simp] theorem codec_lawful : object.codec.Lawful n :=
  Format.codec_lawful format_lawful format_writes format_pieces

end Semantics

namespace Qualifier

def format : Format Qualifier where
  blank := { type := "" }
  components := [
    .required "type" .string type fun q v => { q with type := v },
    .optional "valueType" Datatype.codec valueType fun q v => { q with valueType := v },
    .optional "value" .string value fun q v => { q with value := v },
    .optional "valueId" Reference.codec valueId fun q v => { q with valueId := v }]
  parts := [⟨Semantics, Semantics.object, semantics, fun q v => { q with semantics := v }⟩]

theorem format_lawful : format.Lawful := by
  constructor
  case names => decide
  case ext =>
    rintro ⟨⟩ ⟨⟩
    simp +contextual [format, Component.required, Component.optional]
  all_goals simp [format, Component.required, Component.optional]

theorem format_writes : format.Writes members := fun q => by
  simp [members, format, Format.ownMembers, Format.partMembers, Codec.string, Datatype.codec,
    Reference.codec, Semantics.object]

theorem format_pieces : format.LawfulPieces references n where
  component := by simp [format]
  part := by simp [format]
  vacant := by simp [format]
  references := by
    simp [references, format, Component.required, Component.optional, Codec.string, Datatype.codec,
      Reference.codec, Semantics.object]

def codec : Codec Qualifier := ⟨scheme.decoder, toJson, references⟩

@[simp] theorem codec_lawful : codec.Lawful n :=
  Format.codec_lawful format_lawful format_writes format_pieces

end Qualifier

namespace Extension

def format : Format Extension where
  blank := { name := "" }
  components := [
    .required "name" .string name fun e v => { e with name := v },
    .optional "valueType" Datatype.codec valueType fun e v => { e with valueType := v },
    .optional "value" .string value fun e v => { e with value := v },
    .list "refersTo" Reference.codec refersTo fun e v => { e with refersTo := v }]
  parts := [⟨Semantics, Semantics.object, semantics, fun e v => { e with semantics := v }⟩]

theorem format_lawful : format.Lawful := by
  constructor
  case names => decide
  case ext =>
    rintro ⟨⟩ ⟨⟩
    simp +contextual [format, Component.required, Component.optional, Component.list]
  all_goals simp [format, Component.required, Component.optional, Component.list]

theorem format_writes : format.Writes members := fun e => by
  simp [members, format, Format.ownMembers, Format.partMembers, Codec.string, Datatype.codec,
    Reference.codec, Semantics.object]

theorem format_pieces : format.LawfulPieces references n where
  component := by simp [format]
  part := by simp [format]
  vacant := by simp [format]
  references := by
    simp [references, format, Component.required, Component.optional, Component.list, Codec.string,
      Datatype.codec, Reference.codec, Semantics.object]

def codec : Codec Extension := ⟨scheme.decoder, toJson, references⟩

@[simp] theorem codec_lawful : codec.Lawful n :=
  Format.codec_lawful format_lawful format_writes format_pieces

end Extension

namespace Referable

def format : Format Referable where
  blank := {}
  components := [
    .optional "category" .string category fun r v => { r with category := v },
    .optional "idShort" .string idShort fun r v => { r with idShort := v },
    .list "displayName" LangString.codec displayName fun r v => { r with displayName := v },
    .list "description" LangString.codec description fun r v => { r with description := v },
    .withAlias
      (.list "extensions" Extension.codec extensions fun r v => { r with extensions := v })
      "extension"]

theorem format_lawful : format.Lawful := by
  constructor
  case names => decide
  case ext =>
    rintro ⟨⟩ ⟨⟩
    simp +contextual [format, Component.optional, Component.list, Component.withAlias]
  all_goals simp [format, Component.optional, Component.list, Component.withAlias]

theorem format_writes : format.Writes members := fun r => by
  simp [members, format, Format.ownMembers, Format.partMembers, Codec.string, LangString.codec,
    Extension.codec]

theorem format_pieces : format.LawfulPieces references n where
  component := by simp [format]
  part := by simp [format]
  vacant := by simp [format]
  references := by
    simp [references, format, Component.optional, Component.list, Component.withAlias, Codec.string,
      LangString.codec, Extension.codec]

def object : ObjectCodec Referable := ⟨scheme, format.known, members, references⟩

@[simp] theorem object_lawful : object.Lawful n :=
  Format.object_lawful format_lawful format_writes format_pieces

@[simp] theorem codec_lawful : object.codec.Lawful n :=
  Format.codec_lawful format_lawful format_writes format_pieces

end Referable

namespace AdministrativeInformation

def format : Format AdministrativeInformation where
  blank := {}
  components := [
    .optional "version" .string version fun a v => { a with version := v },
    .optional "revision" .string revision fun a v => { a with revision := v },
    .optional "creator" Reference.codec creator fun a v => { a with creator := v },
    .optional "templateId" .string templateId fun a v => { a with templateId := v }]

theorem format_lawful : format.Lawful := by
  constructor
  case names => decide
  case ext =>
    rintro ⟨⟩ ⟨⟩
    simp +contextual [format, Component.optional]
  all_goals simp [format, Component.optional]

theorem format_writes : format.Writes members := fun a => by
  simp [members, format, Format.ownMembers, Format.partMembers, Codec.string, Reference.codec]

theorem format_pieces : format.LawfulPieces references n where
  component := by simp [format]
  part := by simp [format]
  vacant := by simp [format]
  references := by simp [references, format, Component.optional, Codec.string, Reference.codec]

def codec : Codec AdministrativeInformation := ⟨scheme.decoder, toJson, references⟩

@[simp] theorem codec_lawful : codec.Lawful n :=
  Format.codec_lawful format_lawful format_writes format_pieces

end AdministrativeInformation

namespace Identity

def format : Format Identity where
  blank := { id := "" }
  components := [
    .required "id" .string id fun i v => { i with id := v },
    .optional "administration" AdministrativeInformation.codec administration
      fun i v => { i with administration := v }]
  parts := [⟨Referable, Referable.object, referable, fun i v => { i with referable := v }⟩]

theorem format_lawful : format.Lawful := by
  constructor
  case names => decide
  case ext =>
    rintro ⟨⟩ ⟨⟩
    simp +contextual [format, Component.required, Component.optional]
  all_goals simp [format, Component.required, Component.optional]

theorem format_writes : format.Writes members := Format.writes_of_parts_first fun i => by
  simp [members, format, Format.ownMembers, Format.partMembers, Codec.string,
    AdministrativeInformation.codec, Referable.object]

theorem format_pieces : format.LawfulPieces references n where
  component := by simp [format]
  part := by simp [format]
  vacant := by simp [format]
  references := by
    simp [references, format, Component.required, Component.optional, Codec.string,
      AdministrativeInformation.codec, Referable.object]

def object : ObjectCodec Identity := ⟨scheme, format.known, members, references⟩

@[simp] theorem object_lawful : object.Lawful n :=
  Format.object_lawful format_lawful format_writes format_pieces

@[simp] theorem codec_lawful : object.codec.Lawful n :=
  Format.codec_lawful format_lawful format_writes format_pieces

end Identity

namespace Component

variable {σ : Type}

def dataSpecifications (get : σ → List Reference) (set : σ → List Reference → σ) : Component σ :=
  .withAlias (.list "dataSpecifications" Reference.codec get set) "dataSpecification"

def qualifiers (get : σ → List Qualifier) (set : σ → List Qualifier → σ) : Component σ :=
  .withAlias (.list "qualifiers" Qualifier.codec get set) "qualifier"

end Component

namespace ElementAttributes

def format : Format ElementAttributes where
  blank := {}
  components := [
    .qualifiers qualifiers fun a v => { a with qualifiers := v },
    .dataSpecifications dataSpecifications fun a v => { a with dataSpecifications := v }]
  parts := [
    ⟨Referable, Referable.object, referable, fun a v => { a with referable := v }⟩,
    ⟨Semantics, Semantics.object, semantics, fun a v => { a with semantics := v }⟩]

theorem format_lawful : format.Lawful := by
  constructor
  case names => decide
  case ext =>
    rintro ⟨⟩ ⟨⟩
    simp +contextual [format, Component.qualifiers, Component.dataSpecifications, Component.list,
      Component.withAlias]
  all_goals simp [format, Component.qualifiers, Component.dataSpecifications, Component.list,
    Component.withAlias]

theorem format_writes : format.Writes members := Format.writes_of_parts_first fun a => by
  simp [members, format, Format.ownMembers, Format.partMembers, Component.qualifiers,
    Component.dataSpecifications, Qualifier.codec, Reference.codec, Referable.object,
    Semantics.object, qualifierMembers, dataSpecificationMembers]

theorem format_pieces : format.LawfulPieces references n where
  component := by simp [format, Component.qualifiers, Component.dataSpecifications]
  part := by simp [format]
  vacant := by simp [format, Component.qualifiers, Component.dataSpecifications]
  references := by
    simp [references, format, Component.qualifiers, Component.dataSpecifications, Component.list,
      Component.withAlias, Qualifier.codec, Reference.codec, Referable.object, Semantics.object,
      or_assoc]

def object : ObjectCodec ElementAttributes := ⟨scheme, format.known, members, references⟩

@[simp] theorem object_lawful : object.Lawful n :=
  Format.object_lawful format_lawful format_writes format_pieces

@[simp] theorem codec_lawful : object.codec.Lawful n :=
  Format.codec_lawful format_lawful format_writes format_pieces

end ElementAttributes

end AssetShell
