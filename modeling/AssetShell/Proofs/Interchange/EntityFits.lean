import AssetShell.Proofs.Interchange.EntityRoundTrip
import AssetShell.Proofs.Interchange.TaggedFits

/-!
# The decoders of entities fit their patterns

Each record fits the slots of its kind, so the decoder of each type of entity gives the same for all
values and texts that simulate each other.
-/

namespace AssetShell

/-! ## Words -/

@[simp] theorem KeyType.codec_fits : codec.decoder.Fits .plain := Decoder.named_fits

@[simp] theorem ReferenceKind.codec_fits : codec.decoder.Fits .plain := Decoder.named_fits

@[simp] theorem ModellingKind.codec_fits : codec.decoder.Fits .plain := Decoder.named_fits

@[simp] theorem ElementKind.codec_fits : codec.decoder.Fits .plain := Decoder.named_fits

@[simp] theorem AssetKind.codec_fits : codec.decoder.Fits .plain := Decoder.named_fits

@[simp] theorem Datatype.codec_fits : codec.decoder.Fits .datatype := Decoder.datatype_fits

@[simp] theorem Codec.string_fits : Codec.string.decoder.Fits .plain := Decoder.string_fits

@[simp] theorem Codec.bool_fits : Codec.bool.decoder.Fits .plain := Decoder.bool_fits

/-! ## References -/

theorem Key.format_fits : format.Fits RecordKind.key.ownSlots RecordKind.key.blocks where
  components := by simp [format]
  parts := .nil

@[simp] theorem Key.codec_fits : codec.decoder.Fits (.record .key) :=
  format_fits.decoder_fits format_lawful

namespace Reference

theorem Draft.format_fits :
    format.Fits RecordKind.reference.ownSlots RecordKind.reference.blocks where
  components := by
    simp [format, Key.codec_fits.list, Codec.list]
  parts := .nil

@[simp] theorem codec_fits : codec.decoder.Fits .reference :=
  (Draft.format_fits.decoder_fits Draft.format_lawful).refine Draft.check

end Reference

/-! ## Attributes -/

theorem LangString.format_fits :
    format.Fits RecordKind.langString.ownSlots RecordKind.langString.blocks where
  components := by simp [format]
  parts := .nil

@[simp] theorem LangString.codec_fits : codec.decoder.Fits (.record .langString) :=
  format_fits.decoder_fits format_lawful

namespace Semantics

theorem format_fits : format.Fits RecordKind.semantics.ownSlots RecordKind.semantics.blocks where
  components := by simp [format, slots]
  parts := .nil

@[simp] theorem object_fits : object.Fits slots := format_fits.object_fits format_lawful

end Semantics

namespace Qualifier

theorem format_fits : format.Fits RecordKind.qualifier.ownSlots RecordKind.qualifier.blocks where
  components := by simp [format]
  parts := by simp [format]

@[simp] theorem codec_fits : codec.decoder.Fits (.record .qualifier) :=
  format_fits.decoder_fits format_lawful

end Qualifier

namespace Extension

theorem format_fits : format.Fits RecordKind.extension.ownSlots RecordKind.extension.blocks where
  components := by simp [format]
  parts := by simp [format]

@[simp] theorem codec_fits : codec.decoder.Fits (.record .extension) :=
  format_fits.decoder_fits format_lawful

end Extension

namespace Referable

theorem format_fits : format.Fits RecordKind.referable.ownSlots RecordKind.referable.blocks where
  components := by simp [format, slots]
  parts := .nil

@[simp] theorem object_fits : object.Fits slots := format_fits.object_fits format_lawful

end Referable

namespace AdministrativeInformation

theorem format_fits :
    format.Fits RecordKind.administrativeInformation.ownSlots
      RecordKind.administrativeInformation.blocks where
  components := by simp [format]
  parts := .nil

@[simp] theorem codec_fits : codec.decoder.Fits (.record .administrativeInformation) :=
  format_fits.decoder_fits format_lawful

end AdministrativeInformation

namespace Identity

theorem format_fits : format.Fits RecordKind.identity.ownSlots RecordKind.identity.blocks where
  components := by simp [format, ownSlots]
  parts := by simp [format]

@[simp] theorem object_fits : object.Fits slots := format_fits.object_fits format_lawful

end Identity

namespace ElementAttributes

theorem format_fits :
    format.Fits RecordKind.elementAttributes.ownSlots RecordKind.elementAttributes.blocks where
  components := by simp [format, ownSlots, Component.qualifiers,
    Component.dataSpecifications, Slot.qualifiers, Slot.dataSpecifications]
  parts := by simp [format]

@[simp] theorem object_fits : object.Fits slots := format_fits.object_fits format_lawful

end ElementAttributes

/-! ## Elements -/

namespace Property

theorem format_fits : format.Fits RecordKind.property.ownSlots RecordKind.property.blocks where
  components := by simp [format]
  parts := by simp [format, Part.attributes]

@[simp] theorem object_fits : object.Fits RecordKind.property.slots :=
  format_fits.object_fits format_lawful

end Property

namespace MultiLanguageProperty

theorem format_fits :
    format.Fits RecordKind.multiLanguageProperty.ownSlots
      RecordKind.multiLanguageProperty.blocks where
  components := by simp [format]
  parts := by simp [format, Part.attributes]

@[simp] theorem object_fits : object.Fits RecordKind.multiLanguageProperty.slots :=
  format_fits.object_fits format_lawful

end MultiLanguageProperty

namespace Range

theorem format_fits : format.Fits RecordKind.range.ownSlots RecordKind.range.blocks where
  components := by simp [format]
  parts := by simp [format, Part.attributes]

@[simp] theorem object_fits : object.Fits RecordKind.range.slots :=
  format_fits.object_fits format_lawful

end Range

namespace File

theorem format_fits : format.Fits RecordKind.file.ownSlots RecordKind.file.blocks where
  components := by simp [format]
  parts := by simp [format, Part.attributes]

@[simp] theorem object_fits : object.Fits RecordKind.file.slots :=
  format_fits.object_fits format_lawful

end File

namespace Blob

theorem format_fits : format.Fits RecordKind.blob.ownSlots RecordKind.blob.blocks where
  components := by simp [format]
  parts := by simp [format, Part.attributes]

@[simp] theorem object_fits : object.Fits RecordKind.blob.slots :=
  format_fits.object_fits format_lawful

end Blob

namespace ReferenceElement

theorem format_fits :
    format.Fits RecordKind.referenceElement.ownSlots RecordKind.referenceElement.blocks where
  components := by simp [format]
  parts := by simp [format, Part.attributes]

@[simp] theorem object_fits : object.Fits RecordKind.referenceElement.slots :=
  format_fits.object_fits format_lawful

end ReferenceElement

namespace RelationshipElement

theorem format_fits :
    format.Fits RecordKind.relationshipElement.ownSlots RecordKind.relationshipElement.blocks where
  components := by simp [format]
  parts := by simp [format, Part.attributes]

@[simp] theorem object_fits : object.Fits RecordKind.relationshipElement.slots :=
  format_fits.object_fits format_lawful

end RelationshipElement

/-! ## Collections and lists -/

/-- What a list of items says depends on what the items say only. -/
theorem Format.says_list_of_items {σ β : Type} {item item' : Codec β} {held : Held}
    {es : List (String × Json)} {name : String} {get : σ → List β} {set : σ → List β → σ}
    {blank a : σ}
    (hItems : ∀ m ∈ es, ∀ v ∈ m.2.parts, ∀ b,
      item.decoder.value held v = .ok b → item'.decoder.value held v = .ok b)
    (h : Says (.value held) es blank a (.list name item get set)) :
    Says (.value held) es blank a (.list name item' get set) := by
  refine Or.imp id ?_ h
  rintro ⟨m, hSingle, hRead⟩
  refine ⟨m, hSingle, ?_⟩
  obtain ⟨vs, hArray, hDecode⟩ := Codec.list_value_eq_ok_iff.mp hRead
  have hParts : ∀ v ∈ vs, v ∈ m.2.parts := fun v hv => by rwa [hArray]
  refine Codec.list_value_eq_ok_iff.mpr ⟨vs, hArray, ?_⟩
  exact ((List.forall₂_and_left vs _).mpr ⟨hParts, hDecode⟩).imp fun v b hv =>
    hItems m (mem_of_under hSingle) v hv.1 b hv.2

namespace ElementCollection

theorem format_fits {item : Codec Element} (h : item.decoder.Fits .element) :
    (format item).Fits RecordKind.elementCollection.ownSlots
      RecordKind.elementCollection.blocks where
  components := by simp [format, h]
  parts := by simp [format, Part.attributes]

theorem object_fits {item : Codec Element} (h : item.decoder.Fits .element) :
    (object item).Fits RecordKind.elementCollection.slots :=
  (format_fits h).object_fits (format_lawful item)

theorem ofMembers_of_items {item item' : Codec Element} {held : Held} {es : List (String × Json)}
    {c : ElementCollection}
    (hItems : ∀ m ∈ es, ∀ v ∈ m.2.parts, ∀ e,
      item.decoder.value held v = .ok e → item'.decoder.value held v = .ok e)
    (hc : (scheme item.decoder).ofMembers held es = .ok c) :
    (scheme item'.decoder).ofMembers held es = .ok c := by
  have hReads := (format_lawful item).ofMembers_eq_ok_iff.mp hc
  have hForeign : (format item').foreign es = (format item).foreign es :=
    Format.foreign_of_ownNames (F := format item) (G := format item') rfl es
  refine (format_lawful item').ofMembers_eq_ok_iff.mpr ⟨?_, ?_⟩
  · have hComponents := hReads.component
    simp only [format, List.forall_mem_cons] at hComponents ⊢
    obtain ⟨hOrder, hValue, hNil⟩ := hComponents
    exact ⟨hOrder, Format.says_list_of_items hItems hValue, hNil⟩
  · rw [hForeign]
    exact hReads.part

end ElementCollection

namespace ElementList

theorem format_fits {item : Codec Element} (h : item.decoder.Fits .element) :
    (format item).Fits RecordKind.elementList.ownSlots RecordKind.elementList.blocks where
  components := by simp [format, h]
  parts := by simp [format, Part.attributes]

theorem object_fits {item : Codec Element} (h : item.decoder.Fits .element) :
    (object item).Fits RecordKind.elementList.slots :=
  (format_fits h).object_fits (format_lawful item)

theorem ofMembers_of_items {item item' : Codec Element} {held : Held} {es : List (String × Json)}
    {c : ElementList}
    (hItems : ∀ m ∈ es, ∀ v ∈ m.2.parts, ∀ e,
      item.decoder.value held v = .ok e → item'.decoder.value held v = .ok e)
    (hc : (scheme item.decoder).ofMembers held es = .ok c) :
    (scheme item'.decoder).ofMembers held es = .ok c := by
  have hReads := (format_lawful item).ofMembers_eq_ok_iff.mp hc
  have hForeign : (format item').foreign es = (format item).foreign es :=
    Format.foreign_of_ownNames (F := format item) (G := format item') rfl es
  refine (format_lawful item').ofMembers_eq_ok_iff.mpr ⟨?_, ?_⟩
  · have hComponents := hReads.component
    simp only [format, List.forall_mem_cons] at hComponents ⊢
    obtain ⟨hOrder, hKind, hSemanticId, hValueType, hValue, hNil⟩ := hComponents
    exact ⟨hOrder, hKind, hSemanticId, hValueType, Format.says_list_of_items hItems hValue, hNil⟩
  · rw [hForeign]
    exact hReads.part

end ElementList

/-! ## All elements -/

namespace Element

theorem family_fits {item : Codec Element} (h : item.decoder.Fits .element) :
    (family item).Fits Pattern.elementVariants := by
  simp [Tagged.Family.Fits, Pattern.elementVariants, family, ElementKind.plain, ElementKind.name,
    variant?, ElementCollection.object_fits h, ElementList.object_fits h]

theorem decoderTo_fits (n : Nat) : (decoderTo n).Fits .element := by
  induction n with
  | zero =>
    exact ⟨fun _ _ _ _ _ _ _ h => absurd h decoderTo_zero_value,
      fun _ _ _ _ _ _ _ h => absurd h decoderTo_zero_text⟩
  | succ n ih =>
    change (codecTo (n + 1)).decoder.Fits .element
    rw [codecTo_succ]
    exact (family_fits ih).decoder_fits

theorem ofMembers_of_items {item item' : Codec Element} {es : List (String × Json)}
    {k : ElementKind} {e : Element}
    (hItems : ∀ m ∈ es, ∀ v ∈ m.2.parts, ∀ e,
      item.decoder.value .kept v = .ok e → item'.decoder.value .kept v = .ok e)
    (h : ofMembers item.decoder es k = .ok e) : ofMembers item'.decoder es k = .ok e := by
  cases k with
  | submodelElementCollection =>
    obtain ⟨c, hc, rfl⟩ := exists_of_map_eq_ok h
    exact congrArg (Except.map _) (ElementCollection.ofMembers_of_items hItems hc)
  | submodelElementList =>
    obtain ⟨l, hl, rfl⟩ := exists_of_map_eq_ok h
    exact congrArg (Except.map _) (ElementList.ofMembers_of_items hItems hl)
  | _ => exact h

/-- As many levels as the value has are enough, whatever was needed to decode it. -/
theorem decoderTo_of_depth_lt {m n : Nat} {held : Held} {v : Json} {e : Element}
    (hDepth : v.depth < n) (h : (decoderTo m).value held v = .ok e) :
    (decoderTo n).value held v = .ok e := by
  -- On the levels that are there, not on those that were needed: items are shallower than `v`.
  induction n generalizing m held v e with
  | zero => exact absurd hDepth (Nat.not_lt_zero _)
  | succ n ih =>
    cases m with
    | zero => exact absurd h decoderTo_zero_value
    | succ m =>
      obtain ⟨⟨k, es⟩, hSplit, hMembers⟩ := exists_of_bind_eq_ok h
      change (tagged.value held v).bind _ = _
      rw [hSplit]
      obtain ⟨ms, -, rfl, -, -, rfl⟩ := Tagged.split_value_eq_ok_iff.mp hSplit
      refine @ofMembers_of_items (codecTo m) (codecTo n) _ k e ?_ hMembers
      intro entry hEntry w hw e he
      have hMember := Json.depth_lt_of_member hDepth entry (List.mem_of_mem_filter hEntry)
      exact ih ((Json.depth_lt_of_mem_parts hw).trans hMember) he

@[simp] theorem codec_fits : codec.decoder.Fits .element where
  value R hR held v w e hRel he := by
    -- The decoder counts the levels of its own value, and related values may differ in depth.
    have hSame : (decoderTo (v.depth + 1)).value held w = .ok e :=
      (decoderTo_fits (v.depth + 1)).value R hR held v w e hRel he
    exact decoderTo_of_depth_lt (Nat.lt_succ_self w.depth) hSame
  text := (decoderTo_fits (Json.maxLevels + 1)).text

end Element

/-! ## Identifiables -/

namespace Resource

theorem format_fits : format.Fits RecordKind.resource.ownSlots RecordKind.resource.blocks where
  components := by simp [format]
  parts := .nil

@[simp] theorem codec_fits : codec.decoder.Fits (.record .resource) :=
  format_fits.decoder_fits format_lawful

end Resource

namespace SpecificAssetId

theorem format_fits :
    format.Fits RecordKind.specificAssetId.ownSlots RecordKind.specificAssetId.blocks where
  components := by simp [format]
  parts := by simp [format]

@[simp] theorem codec_fits : codec.decoder.Fits (.record .specificAssetId) :=
  format_fits.decoder_fits format_lawful

end SpecificAssetId

namespace AssetInformation

theorem format_fits :
    format.Fits RecordKind.assetInformation.ownSlots RecordKind.assetInformation.blocks where
  components := by simp [format]
  parts := .nil

@[simp] theorem codec_fits : codec.decoder.Fits (.record .assetInformation) :=
  format_fits.decoder_fits format_lawful

end AssetInformation

namespace Shell

theorem format_fits : format.Fits RecordKind.shell.ownSlots RecordKind.shell.blocks where
  components := by simp [format, Component.dataSpecifications, Slot.dataSpecifications]
  parts := by simp [format, Part.identity]

@[simp] theorem object_fits : object.Fits RecordKind.shell.slots :=
  format_fits.object_fits format_lawful

end Shell

namespace Submodel

theorem format_fits : format.Fits RecordKind.submodel.ownSlots RecordKind.submodel.blocks where
  components := by simp [format, Component.qualifiers,
    Component.dataSpecifications, Slot.qualifiers, Slot.dataSpecifications]
  parts := by simp [format, Part.identity]

@[simp] theorem object_fits : object.Fits RecordKind.submodel.slots :=
  format_fits.object_fits format_lawful

end Submodel

namespace ConceptDescription

theorem format_fits :
    format.Fits RecordKind.conceptDescription.ownSlots RecordKind.conceptDescription.blocks where
  components := by simp [format, Component.dataSpecifications, Slot.dataSpecifications]
  parts := by simp [format, Part.identity]

@[simp] theorem object_fits : object.Fits RecordKind.conceptDescription.slots :=
  format_fits.object_fits format_lawful

end ConceptDescription

namespace Identifiable

theorem family_fits : family.Fits Pattern.identifiableVariants := by
  simp [Tagged.Family.Fits, Pattern.identifiableVariants, family, Kind.all, Kind.name, variant?]

theorem decoder_fits : decoder.Fits .identifiable := by
  rw [decoder_eq]
  exact family_fits.decoder_fits

end Identifiable

/-! ## All types of entities -/

namespace EntityType

def pattern : EntityType → Pattern
  | property => .record .property
  | multiLanguageProperty => .record .multiLanguageProperty
  | range => .record .range
  | file => .record .file
  | blob => .record .blob
  | referenceElement => .record .referenceElement
  | relationshipElement => .record .relationshipElement
  | elementCollection => .record .elementCollection
  | elementList => .record .elementList
  | element => .element
  | submodel => .record .submodel
  | shell => .record .shell
  | conceptDescription => .record .conceptDescription
  | identifiable => .identifiable
  | assetInformation => .record .assetInformation
  | administrativeInformation => .record .administrativeInformation
  | semantics => .record .semantics
  | qualifier => .record .qualifier
  | extension => .record .extension
  | elementAttributes => .record .elementAttributes
  | referable => .record .referable
  | identity => .record .identity

theorem decoder_fits (t : EntityType) : t.decoder.Fits t.pattern := by
  cases t with
  | property => exact Property.format_fits.decoder_fits Property.format_lawful
  | multiLanguageProperty =>
    exact MultiLanguageProperty.format_fits.decoder_fits MultiLanguageProperty.format_lawful
  | range => exact Range.format_fits.decoder_fits Range.format_lawful
  | file => exact File.format_fits.decoder_fits File.format_lawful
  | blob => exact Blob.format_fits.decoder_fits Blob.format_lawful
  | referenceElement =>
    exact ReferenceElement.format_fits.decoder_fits ReferenceElement.format_lawful
  | relationshipElement =>
    exact RelationshipElement.format_fits.decoder_fits RelationshipElement.format_lawful
  | elementCollection =>
    exact (ElementCollection.format_fits Element.codec_fits).decoder_fits
      (ElementCollection.format_lawful Element.codec)
  | elementList =>
    exact (ElementList.format_fits Element.codec_fits).decoder_fits
      (ElementList.format_lawful Element.codec)
  | element => exact Element.codec_fits
  | submodel => exact Submodel.format_fits.decoder_fits Submodel.format_lawful
  | shell => exact Shell.format_fits.decoder_fits Shell.format_lawful
  | conceptDescription =>
    exact ConceptDescription.format_fits.decoder_fits ConceptDescription.format_lawful
  | identifiable => exact Identifiable.decoder_fits
  | assetInformation => exact AssetInformation.codec_fits
  | administrativeInformation => exact AdministrativeInformation.codec_fits
  | semantics => exact Semantics.format_fits.decoder_fits Semantics.format_lawful
  | qualifier => exact Qualifier.codec_fits
  | extension => exact Extension.codec_fits
  | elementAttributes =>
    exact ElementAttributes.format_fits.decoder_fits ElementAttributes.format_lawful
  | referable => exact Referable.format_fits.decoder_fits Referable.format_lawful
  | identity => exact Identity.format_fits.decoder_fits Identity.format_lawful

end EntityType

end AssetShell
