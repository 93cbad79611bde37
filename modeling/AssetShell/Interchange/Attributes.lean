import AssetShell.Interchange.Reference
import AssetShell.Model.Attributes

/-!
# Attributes as objects

How the attribute blocks are read from objects and written as members. What is absent and what is
empty is not written. Some lists may also be given under a singular name.
-/

namespace AssetShell

open Json (optionalMember listMember)

def LangString.scheme : Scheme LangString where
  blank := ⟨"", ""⟩
  fields := [
    .required "language" .string fun l v => { l with language := v },
    .required "text" .string fun l v => { l with text := v }]

def LangString.toJson (l : LangString) : Json :=
  .object [("language", .string l.language), ("text", .string l.text)]

def ModellingKind.decoder : Decoder ModellingKind := .named name all

def ModellingKind.toJson (k : ModellingKind) : Json := .string k.name

def Datatype.toJson (d : Datatype) : Json := .string d.name

namespace Semantics

def scheme : Scheme Semantics where
  blank := {}
  fields := [
    .optional "semanticId" Reference.decoder.optional fun s v => { s with semanticId := v },
    .withAlias
      (.optional "supplementalSemanticIds" Reference.decoder.list
        fun s v => { s with supplementalSemanticIds := v })
      "supplementalSemanticId"]

def members (s : Semantics) : List (String × Json) :=
  optionalMember "semanticId" (s.semanticId.map Reference.toJson)
    ++ listMember "supplementalSemanticIds" (s.supplementalSemanticIds.map Reference.toJson)

end Semantics

namespace Qualifier

def scheme : Scheme Qualifier where
  blank := { type := "" }
  fields := [
    .required "type" .string fun q v => { q with type := v },
    .optional "valueType" Decoder.datatype.optional fun q v => { q with valueType := v },
    .optional "value" Decoder.string.optional fun q v => { q with value := v },
    .optional "valueId" Reference.decoder.optional fun q v => { q with valueId := v }]
  blocks := [Semantics.scheme.block fun q v => { q with semantics := v }]

def members (q : Qualifier) : List (String × Json) :=
  ("type", .string q.type) :: optionalMember "valueType" (q.valueType.map Datatype.toJson)
    ++ optionalMember "value" (q.value.map .string)
    ++ optionalMember "valueId" (q.valueId.map Reference.toJson)
    ++ q.semantics.members

def toJson (q : Qualifier) : Json := .object q.members

end Qualifier

namespace Extension

def scheme : Scheme Extension where
  blank := { name := "" }
  fields := [
    .required "name" .string fun e v => { e with name := v },
    .optional "valueType" Decoder.datatype.optional fun e v => { e with valueType := v },
    .optional "value" Decoder.string.optional fun e v => { e with value := v },
    .optional "refersTo" Reference.decoder.list fun e v => { e with refersTo := v }]
  blocks := [Semantics.scheme.block fun e v => { e with semantics := v }]

def members (e : Extension) : List (String × Json) :=
  ("name", .string e.name) :: optionalMember "valueType" (e.valueType.map Datatype.toJson)
    ++ optionalMember "value" (e.value.map .string)
    ++ listMember "refersTo" (e.refersTo.map Reference.toJson)
    ++ e.semantics.members

def toJson (e : Extension) : Json := .object e.members

end Extension

namespace Referable

def scheme : Scheme Referable where
  blank := {}
  fields := [
    .optional "category" Decoder.string.optional fun r v => { r with category := v },
    .optional "idShort" Decoder.string.optional fun r v => { r with idShort := v },
    .optional "displayName" LangString.scheme.decoder.list fun r v => { r with displayName := v },
    .optional "description" LangString.scheme.decoder.list fun r v => { r with description := v },
    .withAlias
      (.optional "extensions" Extension.scheme.decoder.list fun r v => { r with extensions := v })
      "extension"]

def members (r : Referable) : List (String × Json) :=
  optionalMember "category" (r.category.map .string)
    ++ optionalMember "idShort" (r.idShort.map .string)
    ++ listMember "displayName" (r.displayName.map LangString.toJson)
    ++ listMember "description" (r.description.map LangString.toJson)
    ++ listMember "extensions" (r.extensions.map Extension.toJson)

end Referable

namespace AdministrativeInformation

def scheme : Scheme AdministrativeInformation where
  blank := {}
  fields := [
    .optional "version" Decoder.string.optional fun a v => { a with version := v },
    .optional "revision" Decoder.string.optional fun a v => { a with revision := v },
    .optional "creator" Reference.decoder.optional fun a v => { a with creator := v },
    .optional "templateId" Decoder.string.optional fun a v => { a with templateId := v }]

def members (a : AdministrativeInformation) : List (String × Json) :=
  optionalMember "version" (a.version.map .string)
    ++ optionalMember "revision" (a.revision.map .string)
    ++ optionalMember "creator" (a.creator.map Reference.toJson)
    ++ optionalMember "templateId" (a.templateId.map .string)

def toJson (a : AdministrativeInformation) : Json := .object a.members

end AdministrativeInformation

namespace Identity

def scheme : Scheme Identity where
  blank := { id := "" }
  fields := [
    .required "id" .string fun i v => { i with id := v },
    .optional "administration" AdministrativeInformation.scheme.decoder.optional
      fun i v => { i with administration := v }]
  blocks := [Referable.scheme.block fun i v => { i with referable := v }]

def members (i : Identity) : List (String × Json) :=
  i.referable.members ++ ("id", .string i.id)
    :: optionalMember "administration" (i.administration.map AdministrativeInformation.toJson)

end Identity

/-- Data specifications and qualifiers have the same names wherever they stand. -/
def Field.dataSpecifications {σ : Type} (set : σ → List Reference → σ) : Field σ :=
  .withAlias (.optional "dataSpecifications" Reference.decoder.list set) "dataSpecification"

def Field.qualifiers {σ : Type} (set : σ → List Qualifier → σ) : Field σ :=
  .withAlias (.optional "qualifiers" Qualifier.scheme.decoder.list set) "qualifier"

def dataSpecificationMembers (rs : List Reference) : List (String × Json) :=
  listMember "dataSpecifications" (rs.map Reference.toJson)

def qualifierMembers (qs : List Qualifier) : List (String × Json) :=
  listMember "qualifiers" (qs.map Qualifier.toJson)

namespace ElementAttributes

def scheme : Scheme ElementAttributes where
  blank := {}
  fields := [
    .qualifiers fun a v => { a with qualifiers := v },
    .dataSpecifications fun a v => { a with dataSpecifications := v }]
  blocks := [
    Referable.scheme.block fun a v => { a with referable := v },
    Semantics.scheme.block fun a v => { a with semantics := v }]

def members (a : ElementAttributes) : List (String × Json) :=
  a.referable.members ++ a.semantics.members ++ qualifierMembers a.qualifiers
    ++ dataSpecificationMembers a.dataSpecifications

end ElementAttributes

end AssetShell
