import AssetShell.Interchange.Attributes
import AssetShell.Interchange.Tagged
import AssetShell.Model.Element

/-!
# Elements as objects

Each kind of element has a scheme, in which the shared attributes are a block. An element of any
kind is a tagged object. What a collection or a list holds is decoded with a decoder for elements
that nest one level less, so the nesting of the value bounds the recursion.
-/

namespace AssetShell

open Json (optionalMember listMember)

def ElementKind.decoder : Decoder ElementKind := .named name all

def ElementKind.toJson (k : ElementKind) : Json := .string k.name

namespace Property

def scheme : Scheme Property where
  blank := { valueType := .string }
  fields := [
    .required "valueType" .datatype fun p v => { p with valueType := v },
    .optional "value" Decoder.string.optional fun p v => { p with value := v },
    .optional "valueId" Reference.decoder.optional fun p v => { p with valueId := v }]
  blocks := [ElementAttributes.scheme.block fun p v => { p with common := v }]

def members (p : Property) : List (String × Json) :=
  p.common.members ++ ("valueType", p.valueType.toJson)
    :: optionalMember "value" (p.value.map .string)
    ++ optionalMember "valueId" (p.valueId.map Reference.toJson)

end Property

namespace MultiLanguageProperty

def scheme : Scheme MultiLanguageProperty where
  blank := {}
  fields := [
    .optional "value" LangString.scheme.decoder.list fun p v => { p with value := v },
    .optional "valueId" Reference.decoder.optional fun p v => { p with valueId := v }]
  blocks := [ElementAttributes.scheme.block fun p v => { p with common := v }]

def members (p : MultiLanguageProperty) : List (String × Json) :=
  p.common.members ++ listMember "value" (p.value.map LangString.toJson)
    ++ optionalMember "valueId" (p.valueId.map Reference.toJson)

end MultiLanguageProperty

namespace Range

def scheme : Scheme Range where
  blank := { valueType := .string }
  fields := [
    .required "valueType" .datatype fun r v => { r with valueType := v },
    .optional "min" Decoder.string.optional fun r v => { r with min := v },
    .optional "max" Decoder.string.optional fun r v => { r with max := v }]
  blocks := [ElementAttributes.scheme.block fun r v => { r with common := v }]

def members (r : Range) : List (String × Json) :=
  r.common.members ++ ("valueType", r.valueType.toJson)
    :: optionalMember "min" (r.min.map .string) ++ optionalMember "max" (r.max.map .string)

end Range

namespace File

def scheme : Scheme File where
  blank := { contentType := "", value := "" }
  fields := [
    .required "contentType" .string fun f v => { f with contentType := v },
    .required "value" .string fun f v => { f with value := v }]
  blocks := [ElementAttributes.scheme.block fun f v => { f with common := v }]

def members (f : File) : List (String × Json) :=
  f.common.members ++ [("contentType", .string f.contentType), ("value", .string f.value)]

end File

namespace Blob

def scheme : Scheme Blob where
  blank := { contentType := "", value := "" }
  fields := [
    .required "contentType" .string fun b v => { b with contentType := v },
    .required "value" .string fun b v => { b with value := v }]
  blocks := [ElementAttributes.scheme.block fun b v => { b with common := v }]

def members (b : Blob) : List (String × Json) :=
  b.common.members ++ [("contentType", .string b.contentType), ("value", .string b.value)]

end Blob

namespace ReferenceElement

def scheme : Scheme ReferenceElement where
  blank := { value := .global "" }
  fields := [.required "value" Reference.decoder fun r v => { r with value := v }]
  blocks := [ElementAttributes.scheme.block fun r v => { r with common := v }]

def members (r : ReferenceElement) : List (String × Json) :=
  r.common.members ++ [("value", r.value.toJson)]

end ReferenceElement

namespace RelationshipElement

def scheme : Scheme RelationshipElement where
  blank := { first := .global "", second := .global "" }
  fields := [
    .required "first" Reference.decoder fun r v => { r with first := v },
    .required "second" Reference.decoder fun r v => { r with second := v }]
  blocks := [ElementAttributes.scheme.block fun r v => { r with common := v }]

def members (r : RelationshipElement) : List (String × Json) :=
  r.common.members ++ [("first", r.first.toJson), ("second", r.second.toJson)]

end RelationshipElement

namespace ElementCollection

def scheme (item : Decoder Element) : Scheme ElementCollection where
  blank := ⟨{}, []⟩
  fields := [
    .optional "orderRelevant" .bool fun c v => { c with head.orderRelevant := v },
    .optional "value" item.list fun c v => { c with items := v }]
  blocks := [ElementAttributes.scheme.block fun c v => { c with head.common := v }]

end ElementCollection

namespace ElementList

def scheme (item : Decoder Element) : Scheme ElementList where
  blank := ⟨{}, []⟩
  fields := [
    .optional "orderRelevant" .bool fun l v => { l with head.orderRelevant := v },
    .optional "typeValueListElement" ElementKind.decoder.optional
      fun l v => { l with head.itemKind := v },
    .optional "semanticIdListElement" Reference.decoder.optional
      fun l v => { l with head.itemSemanticId := v },
    .optional "valueTypeListElement" Decoder.datatype.optional
      fun l v => { l with head.itemValueType := v },
    .optional "value" item.list fun l v => { l with items := v }]
  blocks := [ElementAttributes.scheme.block fun l v => { l with head.common := v }]

end ElementList

def CollectionHead.members (h : CollectionHead) : List (String × Json) :=
  h.common.members ++ [("orderRelevant", .bool h.orderRelevant)]

def ListHead.members (h : ListHead) : List (String × Json) :=
  h.common.members ++ ("orderRelevant", .bool h.orderRelevant)
    :: optionalMember "typeValueListElement" (h.itemKind.map ElementKind.toJson)
    ++ optionalMember "semanticIdListElement" (h.itemSemanticId.map Reference.toJson)
    ++ optionalMember "valueTypeListElement" (h.itemValueType.map Datatype.toJson)

namespace Element

/-- The element of a kind, from the entries of its object. The two wider kinds have no elements. -/
def ofMembers (item : Decoder Element) (members : List (String × Json)) :
    ElementKind → Decoded Element
  | .property => (Property.scheme.ofMembers .kept members).map .property
  | .multiLanguageProperty =>
    (MultiLanguageProperty.scheme.ofMembers .kept members).map .multiLanguageProperty
  | .range => (Range.scheme.ofMembers .kept members).map .range
  | .file => (File.scheme.ofMembers .kept members).map .file
  | .blob => (Blob.scheme.ofMembers .kept members).map .blob
  | .referenceElement => (ReferenceElement.scheme.ofMembers .kept members).map .referenceElement
  | .relationshipElement =>
    (RelationshipElement.scheme.ofMembers .kept members).map .relationship
  | .submodelElementCollection =>
    ((ElementCollection.scheme item).ofMembers .kept members).map ElementCollection.toElement
  | .submodelElementList =>
    ((ElementList.scheme item).ofMembers .kept members).map ElementList.toElement
  | .submodelElement => .error .malformed
  | .dataElement => .error .malformed

def tagged : Decoder (ElementKind × List (String × Json)) :=
  Tagged.split ElementKind.name ElementKind.plain

/-- Elements of values that nest at most `levels` deep. What was set aside is decoded as a kept
value, also when the element itself is read from a text. -/
def decoderTo : Nat → Decoder Element
  | 0 => tagged.refine fun _ => .error .malformed
  | levels + 1 => tagged.refine fun (kind, members) => ofMembers (decoderTo levels) members kind

/-- What is set aside from a text nests no deeper than a text may. -/
def decoder : Decoder Element where
  text levels v := (decoderTo (Json.maxLevels + 1)).text levels v
  value held v := (decoderTo (v.depth + 1)).value held v

mutual

def members : Element → List (String × Json)
  | .property p => p.members
  | .multiLanguageProperty p => p.members
  | .range r => r.members
  | .file f => f.members
  | .blob b => b.members
  | .referenceElement r => r.members
  | .relationship r => r.members
  | .collection head items => head.members ++ listMember "value" (toJsons items)
  | .list head items => head.members ++ listMember "value" (toJsons items)

def toJsons : List Element → List Json
  | [] => []
  | e :: r => .object ((Tagged.tagName, e.kind.toJson) :: e.members) :: toJsons r

end

def toJson (e : Element) : Json := .object ((Tagged.tagName, e.kind.toJson) :: e.members)

theorem toJsons_eq_map (items : List Element) : toJsons items = items.map toJson := by
  induction items with
  | nil => simp [toJsons]
  | cons e r ih => simp [toJsons, toJson, ih]

end Element

end AssetShell
