import AssetShell.Document
import AssetShell.Proofs.Interchange.IdentifiableCodecs

/-!
# Decoding undoes writing

The types of entities that are read from a text of their own. What an entity of any of them is
written as, decodes to the entity again, also after its members have changed their places, and then
passes or fails its check as the entity does.
-/

namespace AssetShell

inductive EntityType
  | property
  | multiLanguageProperty
  | range
  | file
  | blob
  | referenceElement
  | relationshipElement
  | elementCollection
  | elementList
  | element
  | submodel
  | shell
  | conceptDescription
  | identifiable
  | assetInformation
  | administrativeInformation
  | semantics
  | qualifier
  | extension
  | elementAttributes
  | referable
  | identity

namespace EntityType

def Carrier : EntityType → Type
  | property => Property
  | multiLanguageProperty => MultiLanguageProperty
  | range => Range
  | file => File
  | blob => Blob
  | referenceElement => ReferenceElement
  | relationshipElement => RelationshipElement
  | elementCollection => ElementCollection
  | elementList => ElementList
  | element => Element
  | submodel => Submodel
  | shell => Shell
  | conceptDescription => ConceptDescription
  | identifiable => Identifiable
  | assetInformation => AssetInformation
  | administrativeInformation => AdministrativeInformation
  | semantics => Semantics
  | qualifier => Qualifier
  | extension => Extension
  | elementAttributes => ElementAttributes
  | referable => Referable
  | identity => Identity

def decoder : (t : EntityType) → Decoder t.Carrier
  | property => Property.scheme.decoder
  | multiLanguageProperty => MultiLanguageProperty.scheme.decoder
  | range => Range.scheme.decoder
  | file => File.scheme.decoder
  | blob => Blob.scheme.decoder
  | referenceElement => ReferenceElement.scheme.decoder
  | relationshipElement => RelationshipElement.scheme.decoder
  | elementCollection => (ElementCollection.scheme Element.decoder).decoder
  | elementList => (ElementList.scheme Element.decoder).decoder
  | element => Element.decoder
  | submodel => Submodel.scheme.decoder
  | shell => Shell.scheme.decoder
  | conceptDescription => ConceptDescription.scheme.decoder
  | identifiable => Identifiable.decoder
  | assetInformation => AssetInformation.scheme.decoder
  | administrativeInformation => AdministrativeInformation.scheme.decoder
  | semantics => Semantics.scheme.decoder
  | qualifier => Qualifier.scheme.decoder
  | extension => Extension.scheme.decoder
  | elementAttributes => ElementAttributes.scheme.decoder
  | referable => Referable.scheme.decoder
  | identity => Identity.scheme.decoder

/-- The plain form. Elements of any kind and identifiables carry their tag. -/
def toJson : (t : EntityType) → t.Carrier → Json
  | property, p => .object (Property.members p)
  | multiLanguageProperty, p => .object (MultiLanguageProperty.members p)
  | range, r => .object (Range.members r)
  | file, f => .object (File.members f)
  | blob, b => .object (Blob.members b)
  | referenceElement, r => .object (ReferenceElement.members r)
  | relationshipElement, r => .object (RelationshipElement.members r)
  | elementCollection, c => .object (ElementCollection.toElement c).members
  | elementList, l => .object (ElementList.toElement l).members
  | element, e => Element.toJson e
  | submodel, s => Submodel.toJson s
  | shell, s => .object (Shell.members s)
  | conceptDescription, c => .object (ConceptDescription.members c)
  | identifiable, i => Identifiable.toJson i
  | assetInformation, a => AssetInformation.toJson a
  | administrativeInformation, a => AdministrativeInformation.toJson a
  | semantics, s => .object (Semantics.members s)
  | qualifier, q => Qualifier.toJson q
  | extension, e => Extension.toJson e
  | elementAttributes, a => .object (ElementAttributes.members a)
  | referable, r => .object (Referable.members r)
  | identity, i => .object (Identity.members i)

def references : (t : EntityType) → t.Carrier → List Reference
  | property => Property.references
  | multiLanguageProperty => MultiLanguageProperty.references
  | range => Range.references
  | file => File.references
  | blob => Blob.references
  | referenceElement => ReferenceElement.references
  | relationshipElement => RelationshipElement.references
  | elementCollection => ElementCollection.references
  | elementList => ElementList.references
  | element => Element.references
  | submodel => Submodel.references
  | shell => Shell.references
  | conceptDescription => ConceptDescription.references
  | identifiable => Identifiable.references
  | assetInformation => AssetInformation.references
  | administrativeInformation => AdministrativeInformation.references
  | semantics => Semantics.references
  | qualifier => Qualifier.references
  | extension => Extension.references
  | elementAttributes => ElementAttributes.references
  | referable => Referable.references
  | identity => Identity.references

def check : (t : EntityType) → t.Carrier → Checked
  | property => Property.check
  | multiLanguageProperty => MultiLanguageProperty.check
  | range => Range.check
  | file => File.check
  | blob => Blob.check
  | referenceElement => ReferenceElement.check
  | relationshipElement => RelationshipElement.check
  | elementCollection => ElementCollection.check
  | elementList => ElementList.check
  | element => Element.check
  | submodel => Submodel.check
  | shell => Shell.check
  | conceptDescription => ConceptDescription.check
  | identifiable => Identifiable.check
  | assetInformation => AssetInformation.check
  | administrativeInformation => AdministrativeInformation.check
  | semantics => Semantics.check
  | qualifier => Qualifier.check
  | extension => Extension.check
  | elementAttributes => ElementAttributes.check
  | referable => Referable.check
  | identity => Identity.check

def codec (t : EntityType) : Codec t.Carrier := ⟨t.decoder, t.toJson, t.references⟩

theorem codec_lawful (t : EntityType) (n : Nat) : t.codec.Lawful n := by
  cases t with
  | property => exact Property.codec_lawful
  | multiLanguageProperty => exact MultiLanguageProperty.codec_lawful
  | range => exact Range.codec_lawful
  | file => exact File.codec_lawful
  | blob => exact Blob.codec_lawful
  | referenceElement => exact ReferenceElement.codec_lawful
  | relationshipElement => exact RelationshipElement.codec_lawful
  | elementCollection =>
    have h : (ElementCollection.object Element.codec).codec.Lawful n :=
      ElementCollection.codec_lawful rfl rfl Element.codec_lawful
    exact h
  | elementList =>
    have h : (ElementList.object Element.codec).codec.Lawful n :=
      ElementList.codec_lawful rfl rfl Element.codec_lawful
    exact h
  | element => exact Element.codec_lawful
  | submodel => exact Submodel.codec_lawful
  | shell => exact Shell.codec_lawful
  | conceptDescription => exact ConceptDescription.codec_lawful
  | identifiable => exact Identifiable.codec_lawful
  | assetInformation => exact AssetInformation.codec_lawful
  | administrativeInformation => exact AdministrativeInformation.codec_lawful
  | semantics => exact Semantics.codec_lawful
  | qualifier => exact Qualifier.codec_lawful
  | extension => exact Extension.codec_lawful
  | elementAttributes => exact ElementAttributes.codec_lawful
  | referable => exact Referable.codec_lawful
  | identity => exact Identity.codec_lawful

variable {t : EntityType} {a : t.Carrier}

theorem tidy_toJson (t : EntityType) (a : t.Carrier) : (t.toJson a).Tidy :=
  (t.codec_lawful ((t.toJson a).depth + 1)).tidy a (Nat.lt_succ_self _)

theorem decode_of_alike {v : Json} (h : v.Alike (t.toJson a)) (held : Held) :
    t.decoder.value held v = .ok a :=
  (t.codec_lawful ((t.toJson a).depth + 1)).restores a (Nat.lt_succ_self _) held v h

/-- Decodes an entity from a value and checks it. -/
def readValue (t : EntityType) (held : Held) (v : Json) : Except Fault t.Carrier := do
  let a ← Fault.ofDecoded (t.decoder.value held v)
  Fault.ofChecked (t.check a)
  return a

theorem readValue_of_decode {held : Held} {v : Json} (h : t.decoder.value held v = .ok a) :
    t.readValue held v = (Fault.ofChecked (t.check a)).map fun _ => a := by
  rw [readValue, h]
  change (Fault.ofChecked (t.check a)).bind (fun _ => .ok a) = _
  cases t.check a <;> rfl

/-- The canonical form has the members of each object in the order of their names. -/
theorem decode_toJson (t : EntityType) (a : t.Carrier) (held : Held) :
    (t.decoder.value held (t.toJson a) = .ok a ∧
      t.decoder.value held (t.toJson a).canonical = .ok a) ∧
    (t.readValue held (t.toJson a) = (Fault.ofChecked (t.check a)).map fun _ => a) ∧
      t.readValue held (t.toJson a).canonical = (Fault.ofChecked (t.check a)).map fun _ => a := by
  have hDistinct := (t.tidy_toJson a).distinct
  have hPlain := decode_of_alike (.refl hDistinct) held
  have hCanonical := decode_of_alike (.canonical hDistinct) held
  exact ⟨⟨hPlain, hCanonical⟩, readValue_of_decode hPlain, readValue_of_decode hCanonical⟩

end EntityType

end AssetShell
