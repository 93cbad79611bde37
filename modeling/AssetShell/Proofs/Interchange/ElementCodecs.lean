import AssetShell.Interchange.Element
import AssetShell.Proofs.Interchange.AttributeCodecs
import AssetShell.Proofs.Interchange.TaggedCodec

/-!
# The codecs of elements

The plain kinds of elements have formats like the attributes. What a collection or a list holds is
read one level further down, so the laws of elements hold level by level, and then for all elements.
-/

namespace AssetShell

open Json (optionalMember listMember)

variable {n : Nat}

def ElementKind.codec : Codec ElementKind := ⟨decoder, toJson, fun _ => []⟩

@[simp] theorem ElementKind.codec_lawful : codec.Lawful n :=
  Codec.named_lawful (fun k => by cases k <;> decide) fun a b => by cases a <;> cases b <;> decide

def Part.attributes {σ : Type} (get : σ → ElementAttributes) (set : σ → ElementAttributes → σ) :
    Part σ :=
  ⟨ElementAttributes, ElementAttributes.object, get, set⟩

namespace Property

def format : Format Property where
  blank := { valueType := .string }
  components := [
    .required "valueType" Datatype.codec valueType fun p v => { p with valueType := v },
    .optional "value" .string value fun p v => { p with value := v },
    .optional "valueId" Reference.codec valueId fun p v => { p with valueId := v }]
  parts := [.attributes common fun p v => { p with common := v }]

theorem format_lawful : format.Lawful := by
  constructor
  case names => decide
  case ext =>
    rintro ⟨⟩ ⟨⟩
    simp +contextual [format, Part.attributes, Component.required, Component.optional]
  all_goals simp [format, Part.attributes, Component.required, Component.optional]

theorem format_writes : format.Writes members := Format.writes_of_parts_first fun p => by
  simp [members, format, Format.ownMembers, Format.partMembers, Part.attributes,
    ElementAttributes.object, Datatype.codec, Codec.string, Reference.codec]

theorem format_pieces : format.LawfulPieces references n where
  component := by simp [format]
  part := by simp [format, Part.attributes]
  vacant := by simp [format]
  references := by
    simp [references, format, Part.attributes, ElementAttributes.object, Component.required,
      Component.optional, Datatype.codec, Codec.string, Reference.codec]

def object : ObjectCodec Property := ⟨scheme, format.known, members, references⟩

@[simp] theorem object_lawful : object.Lawful n :=
  Format.object_lawful format_lawful format_writes format_pieces

theorem codec_lawful : object.codec.Lawful n :=
  Format.codec_lawful format_lawful format_writes format_pieces

end Property

namespace MultiLanguageProperty

def format : Format MultiLanguageProperty where
  blank := {}
  components := [
    .list "value" LangString.codec value fun p v => { p with value := v },
    .optional "valueId" Reference.codec valueId fun p v => { p with valueId := v }]
  parts := [.attributes common fun p v => { p with common := v }]

theorem format_lawful : format.Lawful := by
  constructor
  case names => decide
  case ext =>
    rintro ⟨⟩ ⟨⟩
    simp +contextual [format, Part.attributes, Component.list, Component.optional]
  all_goals simp [format, Part.attributes, Component.list, Component.optional]

theorem format_writes : format.Writes members := Format.writes_of_parts_first fun p => by
  simp [members, format, Format.ownMembers, Format.partMembers, Part.attributes,
    ElementAttributes.object, LangString.codec, Reference.codec]

theorem format_pieces : format.LawfulPieces references n where
  component := by simp [format]
  part := by simp [format, Part.attributes]
  vacant := by simp [format]
  references := by
    simp [references, format, Part.attributes, ElementAttributes.object, Component.list,
      Component.optional, LangString.codec, Reference.codec]

def object : ObjectCodec MultiLanguageProperty := ⟨scheme, format.known, members, references⟩

@[simp] theorem object_lawful : object.Lawful n :=
  Format.object_lawful format_lawful format_writes format_pieces

theorem codec_lawful : object.codec.Lawful n :=
  Format.codec_lawful format_lawful format_writes format_pieces

end MultiLanguageProperty

namespace Range

def format : Format Range where
  blank := { valueType := .string }
  components := [
    .required "valueType" Datatype.codec valueType fun r v => { r with valueType := v },
    .optional "min" .string min fun r v => { r with min := v },
    .optional "max" .string max fun r v => { r with max := v }]
  parts := [.attributes common fun r v => { r with common := v }]

theorem format_lawful : format.Lawful := by
  constructor
  case names => decide
  case ext =>
    rintro ⟨⟩ ⟨⟩
    simp +contextual [format, Part.attributes, Component.required, Component.optional]
  all_goals simp [format, Part.attributes, Component.required, Component.optional]

theorem format_writes : format.Writes members := Format.writes_of_parts_first fun r => by
  simp [members, format, Format.ownMembers, Format.partMembers, Part.attributes,
    ElementAttributes.object, Datatype.codec, Codec.string]

theorem format_pieces : format.LawfulPieces references n where
  component := by simp [format]
  part := by simp [format, Part.attributes]
  vacant := by simp [format]
  references := by
    simp [references, format, Part.attributes, ElementAttributes.object, Component.required,
      Component.optional, Datatype.codec, Codec.string]

def object : ObjectCodec Range := ⟨scheme, format.known, members, references⟩

@[simp] theorem object_lawful : object.Lawful n :=
  Format.object_lawful format_lawful format_writes format_pieces

theorem codec_lawful : object.codec.Lawful n :=
  Format.codec_lawful format_lawful format_writes format_pieces

end Range

namespace File

def format : Format File where
  blank := { contentType := "", value := "" }
  components := [
    .required "contentType" .string contentType fun f w => { f with contentType := w },
    .required "value" .string value fun f w => { f with value := w }]
  parts := [.attributes common fun f v => { f with common := v }]

theorem format_lawful : format.Lawful := by
  constructor
  case names => decide
  case ext =>
    rintro ⟨⟩ ⟨⟩
    simp +contextual [format, Part.attributes, Component.required]
  all_goals simp [format, Part.attributes, Component.required]

theorem format_writes : format.Writes members := Format.writes_of_parts_first fun f => by
  simp [members, format, Format.ownMembers, Format.partMembers, Part.attributes,
    ElementAttributes.object, Codec.string]

theorem format_pieces : format.LawfulPieces references n where
  component := by simp [format]
  part := by simp [format, Part.attributes]
  vacant := by simp [format]
  references := by
    simp [references, format, Part.attributes, ElementAttributes.object, Component.required,
      Codec.string]

def object : ObjectCodec File := ⟨scheme, format.known, members, references⟩

@[simp] theorem object_lawful : object.Lawful n :=
  Format.object_lawful format_lawful format_writes format_pieces

theorem codec_lawful : object.codec.Lawful n :=
  Format.codec_lawful format_lawful format_writes format_pieces

end File

namespace Blob

def format : Format Blob where
  blank := { contentType := "", value := "" }
  components := [
    .required "contentType" .string contentType fun b w => { b with contentType := w },
    .required "value" .string value fun b w => { b with value := w }]
  parts := [.attributes common fun b v => { b with common := v }]

theorem format_lawful : format.Lawful := by
  constructor
  case names => decide
  case ext =>
    rintro ⟨⟩ ⟨⟩
    simp +contextual [format, Part.attributes, Component.required]
  all_goals simp [format, Part.attributes, Component.required]

theorem format_writes : format.Writes members := Format.writes_of_parts_first fun b => by
  simp [members, format, Format.ownMembers, Format.partMembers, Part.attributes,
    ElementAttributes.object, Codec.string]

theorem format_pieces : format.LawfulPieces references n where
  component := by simp [format]
  part := by simp [format, Part.attributes]
  vacant := by simp [format]
  references := by
    simp [references, format, Part.attributes, ElementAttributes.object, Component.required,
      Codec.string]

def object : ObjectCodec Blob := ⟨scheme, format.known, members, references⟩

@[simp] theorem object_lawful : object.Lawful n :=
  Format.object_lawful format_lawful format_writes format_pieces

theorem codec_lawful : object.codec.Lawful n :=
  Format.codec_lawful format_lawful format_writes format_pieces

end Blob

namespace ReferenceElement

def format : Format ReferenceElement where
  blank := { value := .global "" }
  components := [
    .required "value" Reference.codec value fun r v => { r with value := v }]
  parts := [.attributes common fun r v => { r with common := v }]

theorem format_lawful : format.Lawful := by
  constructor
  case names => decide
  case ext =>
    rintro ⟨⟩ ⟨⟩
    simp +contextual [format, Part.attributes, Component.required]
  all_goals simp [format, Part.attributes, Component.required]

theorem format_writes : format.Writes members := Format.writes_of_parts_first fun r => by
  simp [members, format, Format.ownMembers, Format.partMembers, Part.attributes,
    ElementAttributes.object, Reference.codec]

theorem format_pieces : format.LawfulPieces references n where
  component := by simp [format]
  part := by simp [format, Part.attributes]
  vacant := by simp [format]
  references := by
    simp [references, format, Part.attributes, ElementAttributes.object, Component.required,
      Reference.codec]

def object : ObjectCodec ReferenceElement := ⟨scheme, format.known, members, references⟩

@[simp] theorem object_lawful : object.Lawful n :=
  Format.object_lawful format_lawful format_writes format_pieces

theorem codec_lawful : object.codec.Lawful n :=
  Format.codec_lawful format_lawful format_writes format_pieces

end ReferenceElement

namespace RelationshipElement

def format : Format RelationshipElement where
  blank := { first := .global "", second := .global "" }
  components := [
    .required "first" Reference.codec first fun r v => { r with first := v },
    .required "second" Reference.codec second fun r v => { r with second := v }]
  parts := [.attributes common fun r v => { r with common := v }]

theorem format_lawful : format.Lawful := by
  constructor
  case names => decide
  case ext =>
    rintro ⟨⟩ ⟨⟩
    simp +contextual [format, Part.attributes, Component.required]
  all_goals simp [format, Part.attributes, Component.required]

theorem format_writes : format.Writes members := Format.writes_of_parts_first fun r => by
  simp [members, format, Format.ownMembers, Format.partMembers, Part.attributes,
    ElementAttributes.object, Reference.codec]

theorem format_pieces : format.LawfulPieces references n where
  component := by simp [format]
  part := by simp [format, Part.attributes]
  vacant := by simp [format]
  references := by
    simp [references, format, Part.attributes, ElementAttributes.object, Component.required,
      Reference.codec, or_assoc]

def object : ObjectCodec RelationshipElement := ⟨scheme, format.known, members, references⟩

@[simp] theorem object_lawful : object.Lawful n :=
  Format.object_lawful format_lawful format_writes format_pieces

theorem codec_lawful : object.codec.Lawful n :=
  Format.codec_lawful format_lawful format_writes format_pieces

end RelationshipElement

/-! ## Collections and lists -/

def Element.codec : Codec Element := ⟨decoder, toJson, references⟩

namespace ElementCollection

def members (c : ElementCollection) : List (String × Json) := c.toElement.members

def format (item : Codec Element) : Format ElementCollection where
  blank := ⟨{}, []⟩
  components := [
    .defaulted "orderRelevant" .bool (·.head.orderRelevant)
      fun c v => { c with head.orderRelevant := v },
    .list "value" item items fun c v => { c with items := v }]
  parts := [.attributes (·.head.common) fun c v => { c with head.common := v }]

theorem format_lawful (item : Codec Element) : (format item).Lawful := by
  constructor
  case names =>
    change (format Element.codec).known.Nodup
    decide
  case ext =>
    rintro ⟨⟨⟩, _⟩ ⟨⟨⟩, _⟩
    simp +contextual [format, Part.attributes, Component.required, Component.defaulted,
      Component.list]
  all_goals
    simp [format, Part.attributes, Component.required, Component.defaulted, Component.list]

theorem format_writes {item : Codec Element} (h : item.write = Element.toJson) :
    (format item).Writes members := Format.writes_of_parts_first fun c => by
  simp [members, toElement, Element.members, CollectionHead.members, Element.toJsons_eq_map, format,
    Format.ownMembers, Format.partMembers, Part.attributes, ElementAttributes.object, Codec.bool, h]

theorem format_pieces {item : Codec Element} (h : item.references = Element.references)
    (hItem : item.Lawful n) : (format item).LawfulPieces references n where
  component := by simp [format, hItem]
  part := by simp [format, Part.attributes]
  vacant := by simp [format, Codec.bool]
  references := by
    simp [references, format, Part.attributes, ElementAttributes.object,
      Component.required, Component.defaulted, Component.list, Codec.bool, h]

def object (item : Codec Element) : ObjectCodec ElementCollection :=
  ⟨scheme item.decoder, (format item).known, members, references⟩

theorem object_lawful {item : Codec Element} (hWrite : item.write = Element.toJson)
    (hReferences : item.references = Element.references) (hItem : item.Lawful n) :
    (object item).Lawful n :=
  Format.object_lawful (format_lawful item) (format_writes hWrite) (format_pieces hReferences hItem)

theorem codec_lawful {item : Codec Element} (hWrite : item.write = Element.toJson)
    (hReferences : item.references = Element.references) (hItem : item.Lawful n) :
    (object item).codec.Lawful n :=
  Format.codec_lawful (format_lawful item) (format_writes hWrite) (format_pieces hReferences hItem)

end ElementCollection

namespace ElementList

def members (l : ElementList) : List (String × Json) := l.toElement.members

def format (item : Codec Element) : Format ElementList where
  blank := ⟨{}, []⟩
  components := [
    .defaulted "orderRelevant" .bool (·.head.orderRelevant)
      fun l v => { l with head.orderRelevant := v },
    .optional "typeValueListElement" ElementKind.codec (·.head.itemKind)
      fun l v => { l with head.itemKind := v },
    .optional "semanticIdListElement" Reference.codec (·.head.itemSemanticId)
      fun l v => { l with head.itemSemanticId := v },
    .optional "valueTypeListElement" Datatype.codec (·.head.itemValueType)
      fun l v => { l with head.itemValueType := v },
    .list "value" item items fun l v => { l with items := v }]
  parts := [.attributes (·.head.common) fun l v => { l with head.common := v }]

theorem format_lawful (item : Codec Element) : (format item).Lawful := by
  constructor
  case names =>
    change (format Element.codec).known.Nodup
    decide
  case ext =>
    rintro ⟨⟨⟩, _⟩ ⟨⟨⟩, _⟩
    simp +contextual [format, Part.attributes, Component.required, Component.defaulted,
      Component.optional, Component.list]
  all_goals
    simp [format, Part.attributes, Component.required, Component.defaulted, Component.optional,
      Component.list]

theorem format_writes {item : Codec Element} (h : item.write = Element.toJson) :
    (format item).Writes members := Format.writes_of_parts_first fun l => by
  simp [members, toElement, Element.members, ListHead.members, Element.toJsons_eq_map, format,
    Format.ownMembers, Format.partMembers, Part.attributes, ElementAttributes.object, Codec.bool,
    ElementKind.codec, Reference.codec, Datatype.codec, h]

theorem format_pieces {item : Codec Element} (h : item.references = Element.references)
    (hItem : item.Lawful n) : (format item).LawfulPieces references n where
  component := by simp [format, hItem]
  part := by simp [format, Part.attributes]
  vacant := by simp [format, Codec.bool]
  references := by
    simp [references, format, Part.attributes, ElementAttributes.object,
      Component.required, Component.defaulted, Component.optional, Component.list, Codec.bool,
      ElementKind.codec, Reference.codec, Datatype.codec, h, or_assoc]

def object (item : Codec Element) : ObjectCodec ElementList :=
  ⟨scheme item.decoder, (format item).known, members, references⟩

theorem object_lawful {item : Codec Element} (hWrite : item.write = Element.toJson)
    (hReferences : item.references = Element.references) (hItem : item.Lawful n) :
    (object item).Lawful n :=
  Format.object_lawful (format_lawful item) (format_writes hWrite) (format_pieces hReferences hItem)

theorem codec_lawful {item : Codec Element} (hWrite : item.write = Element.toJson)
    (hReferences : item.references = Element.references) (hItem : item.Lawful n) :
    (object item).codec.Lawful n :=
  Format.codec_lawful (format_lawful item) (format_writes hWrite) (format_pieces hReferences hItem)

end ElementList

/-! ## All elements -/

namespace Element

def variant? (item : Codec Element) : ElementKind → Option (Tagged.Variant Element)
  | .property => some ⟨Property, Property.object, .property⟩
  | .multiLanguageProperty =>
    some ⟨MultiLanguageProperty, MultiLanguageProperty.object, .multiLanguageProperty⟩
  | .range => some ⟨Range, Range.object, .range⟩
  | .file => some ⟨File, File.object, .file⟩
  | .blob => some ⟨Blob, Blob.object, .blob⟩
  | .referenceElement => some ⟨ReferenceElement, ReferenceElement.object, .referenceElement⟩
  | .relationshipElement => some ⟨RelationshipElement, RelationshipElement.object, .relationship⟩
  | .submodelElementCollection =>
    some ⟨ElementCollection, ElementCollection.object item, ElementCollection.toElement⟩
  | .submodelElementList => some ⟨ElementList, ElementList.object item, ElementList.toElement⟩
  | .submodelElement => none
  | .dataElement => none

def family (item : Codec Element) : Tagged.Family ElementKind Element where
  name := ElementKind.name
  all := ElementKind.plain
  variant? := variant? item
  tag := kind
  members := members
  references := references

/-- Elements in values that nest at most `levels` deep. -/
def codecTo (levels : Nat) : Codec Element := ⟨decoderTo levels, toJson, references⟩

theorem ofMembers_family (item : Codec Element) (es : List (String × Json)) (k : ElementKind) :
    (family item).ofMembers es k = ofMembers item.decoder es k := by
  cases k <;> rfl

theorem codecTo_succ (levels : Nat) : codecTo (levels + 1) = (family (codecTo levels)).codec := by
  have hDecode : (fun (k, es) => ofMembers (decoderTo levels) es k) =
      fun (k, es) => (family (codecTo levels)).ofMembers es k := by
    funext ⟨k, es⟩
    exact (ofMembers_family (codecTo levels) es k).symm
  rw [codecTo, decoderTo, hDecode]
  rfl

theorem family_lawful {item : Codec Element} (hWrite : item.write = toJson)
    (hReferences : item.references = references) (hItem : item.Lawful n) :
    (family item).Lawful n where
  pick e := by cases e <;> rfl
  covers e := by
    cases e with
    | property p => exact ⟨_, p, rfl, rfl⟩
    | multiLanguageProperty p => exact ⟨_, p, rfl, rfl⟩
    | range r => exact ⟨_, r, rfl, rfl⟩
    | file f => exact ⟨_, f, rfl, rfl⟩
    | blob b => exact ⟨_, b, rfl, rfl⟩
    | referenceElement r => exact ⟨_, r, rfl, rfl⟩
    | relationship r => exact ⟨_, r, rfl, rfl⟩
    | collection head items => exact ⟨_, (⟨head, items⟩ : ElementCollection), rfl, rfl⟩
    | list head items => exact ⟨_, (⟨head, items⟩ : ElementList), rfl, rfl⟩
  members k x hx b := by
    cases k <;> cases hx <;> rfl
  references k x hx b := by
    cases k <;> cases hx
    case submodelElementCollection =>
      exact congrArg (· ++ b.head.common.references) (referencesOfAll_eq_flatMap b.items)
    case submodelElementList =>
      exact congrArg (b.head.itemSemanticId.toList ++ · ++ b.head.common.references)
        (referencesOfAll_eq_flatMap b.items)
    all_goals rfl
  untagged k x hx := by
    cases k <;> cases hx
    case submodelElementCollection =>
      change Tagged.tagName ∉ (ElementCollection.format codec).known
      decide
    case submodelElementList =>
      change Tagged.tagName ∉ (ElementList.format codec).known
      decide
    all_goals decide
  object k x hx := by
    cases k <;> cases hx
    case submodelElementCollection => exact ElementCollection.object_lawful hWrite hReferences hItem
    case submodelElementList => exact ElementList.object_lawful hWrite hReferences hItem
    all_goals simp

theorem decoderTo_zero_value {held : Held} {v : Json} {e : Element} :
    (decoderTo 0).value held v ≠ .ok e := by
  intro h
  obtain ⟨_, -, h⟩ := exists_of_bind_eq_ok h
  cases h

theorem decoderTo_zero_text {levels : Nat} {o : Outline} {e : Element} :
    (decoderTo 0).text levels o ≠ .ok e := by
  intro h
  obtain ⟨_, -, h⟩ := exists_of_bind_eq_ok h
  cases h

theorem codecTo_lawful (n : Nat) : (codecTo n).Lawful n := by
  induction n with
  | zero =>
    exact {
      tidy := fun _ h => absurd h (Nat.not_lt_zero _)
      restores := fun _ h => absurd h (Nat.not_lt_zero _)
      depth_le := fun _ _ _ h => absurd h decoderTo_zero_value
      of_value := fun _ _ _ h => absurd h decoderTo_zero_value
      of_text := fun _ _ _ h => absurd h decoderTo_zero_text }
  | succ n ih =>
    rw [codecTo_succ]
    exact (family_lawful rfl rfl ih).codec_lawful_succ

@[simp] theorem codec_lawful : codec.Lawful n where
  tidy e _ := (codecTo_lawful (e.toJson.depth + 1)).tidy e (Nat.lt_succ_self _)
  -- A value is read with as many levels as it has, which is enough for the element.
  restores e _ held v hv := by
    have hDepth : e.toJson.depth < v.depth + 1 := Nat.lt_succ_of_le hv.depth_eq.ge
    exact (codecTo_lawful (v.depth + 1)).restores e hDepth held v hv
  depth_le held v := (codecTo_lawful (v.depth + 1)).depth_le held v
  of_value held v := (codecTo_lawful (v.depth + 1)).of_value held v
  of_text := (codecTo_lawful (Json.maxLevels + 1)).of_text

end Element

end AssetShell
