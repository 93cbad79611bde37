import AssetShell.Proofs.Interchange.EntityRoundTrip
import AssetShell.Proofs.Interchange.SuccessfulReading
import AssetShell.Proofs.Reference.FirstFault

/-!
# Where references come from

A reference is made from its kind and keys, and only if they are well formed. Whoever reads an
entity or a document reads each of its references, wherever it stands, from a part of the text that
has passed this check. So a first and a last key are always there.
-/

namespace AssetShell

namespace Reference

/-- What holds of every reference, and what can be asked of it without fail. -/
structure Sound (r : Reference) : Prop where
  passes : Chain.fault? r.kind r.keys = none
  wellFormed : Chain.WellFormed r.kind r.keys
  firstKey : r.keys.head? = some r.firstKey
  lastKey : r.keys.getLast? = some r.lastKey
  isModelTo : ∀ type, r.isModelTo type = true ↔
    r.kind = .model ∧ Chain.typeAt? r.keys 0 = some type

theorem isModelTo_iff (r : Reference) (type : KeyType) :
    r.isModelTo type = true ↔ r.kind = .model ∧ Chain.typeAt? r.keys 0 = some type := by
  have hFirst : Chain.typeAt? r.keys 0 = some r.firstKey.type := by
    rw [Chain.typeAt?, ← List.head?_eq_getElem?, List.head?_eq_some_head r.keys_ne_nil]
    rfl
  rw [hFirst, Option.some.injEq]
  simp [isModelTo, isModel]

theorem sound_of_fault?_eq_none {r : Reference} (h : Chain.fault? r.kind r.keys = none) :
    r.Sound where
  passes := h
  wellFormed := (Chain.fault?_eq_none_iff _ _).mp h
  firstKey := List.head?_eq_some_head r.keys_ne_nil
  lastKey := List.getLast?_eq_some_getLast r.keys_ne_nil
  isModelTo := r.isModelTo_iff

theorem sound_of_ofKeys {kind : ReferenceKind} {keys : List Key} {r : Reference}
    (h : ofKeys kind keys = .ok r) : r.Sound := by
  obtain ⟨rfl, rfl⟩ := ofKeys_eq_ok_iff.mp h
  cases hFault : Chain.fault? r.kind r.keys with
  | none => exact sound_of_fault?_eq_none hFault
  | some fault =>
    rw [ofKeys_eq_error_iff.mpr hFault] at h
    cases h

theorem exists_ofKeys_iff (kind : ReferenceKind) (keys : List Key) :
    (∃ r, ofKeys kind keys = .ok r) ↔ Chain.WellFormed kind keys := by
  rw [← Chain.fault?_eq_none_iff]
  constructor
  · rintro ⟨r, h⟩
    obtain ⟨rfl, rfl⟩ := ofKeys_eq_ok_iff.mp h
    exact (sound_of_ofKeys h).passes
  · intro h
    exact ⟨⟨kind, keys, h⟩, ofKeys_eq_ok_iff.mpr ⟨rfl, rfl⟩⟩

theorem ofKeys_global (value : String) :
    ofKeys .external [⟨.globalReference, value⟩] = .ok (global value) :=
  ofKeys_eq_ok_iff.mpr ⟨rfl, rfl⟩

end Reference

/-! ## References in a source -/

theorem Json.Holds.exists_ofKeys {v : Json} {r : Reference} (h : v.Holds r) :
    ∃ kind keys, Reference.ofKeys kind keys = .ok r := by
  induction h with
  | here h =>
    obtain ⟨d, -, hd⟩ := Reference.exists_ofKeys_of_value h
    exact ⟨d.kind, d.keys, hd⟩
  | inside _ _ ih => exact ih

theorem Outline.Holds.exists_ofKeys {o : Outline} {r : Reference} (h : o.Holds r) :
    ∃ kind keys, Reference.ofKeys kind keys = .ok r := by
  induction h with
  | here h =>
    obtain ⟨d, -, hd⟩ := Reference.exists_ofKeys_of_text h
    exact ⟨d.kind, d.keys, hd⟩
  | inside _ _ ih => exact ih
  | aside _ h => exact h.exists_ofKeys

namespace EntityType

theorem holds_of_readEntity {t : EntityType} {s : String} {a : t.Carrier}
    (h : readEntity t.decoder t.check s = .ok a) {r : Reference} (hr : r ∈ t.references a) :
    (Outline.ofText s).1.Holds r := by
  have hText := Decoder.text_of_ofText (ofText_of_readEntity h).1
  exact (t.codec_lawful 0).of_text _ _ a hText r hr

end EntityType

namespace Document

variable {v : Json} {es : List Identifiable}

theorem holds_of_decodeValue (h : decodeValue v = .ok es) {i : Identifiable} (hi : i ∈ es)
    {r : Reference} (hr : r ∈ i.references) : v.Holds r := by
  have hOne : ∀ w, Identifiable.decoder.value .parsed w = .ok i → w.Holds r := fun w hw =>
    (Identifiable.codec_lawful (n := 0)).of_value .parsed w i hw r hr
  rcases decodeValue_inv h with ⟨items, rfl, hItems⟩ | ⟨j, rfl, hj⟩
  · obtain ⟨w, hw, hDecode⟩ := exists_of_mapM_eq_ok hItems hi
    exact .inside hw (hOne w hDecode)
  · rw [List.mem_singleton] at hi
    subst hi
    exact hOne v hj

end Document

/-! ## Every reference -/

theorem Reference.sound_wherever_found :
    (∀ kind keys, (∃ r, Reference.ofKeys kind keys = .ok r) ↔ Chain.WellFormed kind keys) ∧
    (∀ kind keys r, Reference.ofKeys kind keys = .ok r →
      r.kind = kind ∧ r.keys = keys ∧ r.Sound) ∧
    (∀ value, Reference.ofKeys .external [⟨.globalReference, value⟩] = .ok (.global value) ∧
      (Reference.global value).Sound) ∧
    (∀ held v r, Reference.decoder.value held v = .ok r → r.Sound ∧
      ∃ d, Draft.scheme.ofValue held v = .ok d ∧ Reference.ofKeys d.kind d.keys = .ok r) ∧
    (∀ s r, Reference.decoder.ofText s = .ok r → r.Sound ∧
      ∃ d, Draft.scheme.ofText Json.maxLevels (Outline.ofText s).1 = .ok d ∧
        Reference.ofKeys d.kind d.keys = .ok r) ∧
    (∀ (t : EntityType) s a, readEntity t.decoder t.check s = .ok a →
      ∀ r ∈ t.references a, r.Sound ∧ (Outline.ofText s).1.Holds r) ∧
    ∀ s es, Document.read s = .ok es → ∃ v, Json.ofText? s = some v ∧
      ∀ i ∈ es, ∀ r ∈ i.references, r.Sound ∧ v.Holds r := by
  refine ⟨exists_ofKeys_iff, ?_, ?_, ?_, ?_, ?_, ?_⟩
  · intro kind keys r h
    obtain ⟨hKind, hKeys⟩ := ofKeys_eq_ok_iff.mp h
    exact ⟨hKind, hKeys, sound_of_ofKeys h⟩
  · intro value
    exact ⟨ofKeys_global value, sound_of_ofKeys (ofKeys_global value)⟩
  · intro held v r h
    obtain ⟨d, hd, hr⟩ := exists_ofKeys_of_value h
    exact ⟨sound_of_ofKeys hr, d, hd, hr⟩
  · intro s r h
    obtain ⟨d, hd, hr⟩ := exists_ofKeys_of_text (Decoder.text_of_ofText h)
    exact ⟨sound_of_ofKeys hr, d, hd, hr⟩
  · intro t s a h r hr
    have hHolds := EntityType.holds_of_readEntity h hr
    obtain ⟨kind, keys, hKeys⟩ := hHolds.exists_ofKeys
    exact ⟨sound_of_ofKeys hKeys, hHolds⟩
  · intro s es h
    obtain ⟨v, hv, hDecode, -⟩ := Document.read_inv h
    refine ⟨v, hv, fun i hi r hr => ?_⟩
    have hHolds := Document.holds_of_decodeValue hDecode hi hr
    obtain ⟨kind, keys, hKeys⟩ := hHolds.exists_ofKeys
    exact ⟨sound_of_ofKeys hKeys, hHolds⟩

/-- A text with one reference. -/
theorem Reference.sound_in_creator_text :
    let a : AdministrativeInformation := { creator := some (.global "a") }
    ∃ text, readEntity EntityType.administrativeInformation.decoder
        EntityType.administrativeInformation.check text = .ok a ∧
      (Reference.global "a").Sound ∧ (Outline.ofText text).1.Holds (.global "a") := by
  intro a
  have hRead : readEntity EntityType.administrativeInformation.decoder
      EntityType.administrativeInformation.check
      ("\x7b\"creator\": \x7b\"type\": \"ExternalReference\", " ++
        "\"keys\": [\x7b\"type\": \"GlobalReference\", \"value\": \"a\"\x7d]\x7d\x7d") =
      .ok (⟨none, none, some (.global "a"), none⟩ : AdministrativeInformation) := by
    cbv
  obtain ⟨hSound, hHolds⟩ :=
    sound_wherever_found.2.2.2.2.2.1 .administrativeInformation _ _ hRead (.global "a")
      List.mem_cons_self
  exact ⟨_, hRead, hSound, hHolds⟩

end AssetShell
