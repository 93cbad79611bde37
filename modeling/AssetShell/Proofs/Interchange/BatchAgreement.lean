import AssetShell.Proofs.Interchange.CanonicalSimulation
import AssetShell.Proofs.Interchange.EntityFits
import AssetShell.Proofs.Interchange.SuccessfulReading
import AssetShell.Proofs.Model.FirstViolation

/-!
# Documents of one entity

An entity that is read from a text of its own is read entry by entry; a document is turned into the
canonical form of its value first. Both agree: a tagged object is read from a text as from the value
of the text, and the decoder of identifiables cannot tell that from its canonical form, unless the
canonical form hides a repeated name.
-/

namespace AssetShell

/-! ## Tagged objects in a text and in its value -/

namespace Tagged

variable {τ : Type} {name : τ → String} {all : List τ} {tag : τ} {es : List (String × Json)}
  {n : Nat} {o : Outline}

theorem tagOfText_eq_ok_iff :
    tagOfText name all o = .ok tag ↔
      ∃ s, o = .string (some s) ∧ Decoder.pick name all s = .ok tag := by
  constructor
  · intro h
    rw [tagOfText.eq_def] at h
    split at h
    · exact ⟨_, rfl, h⟩
    · cases h
  · rintro ⟨s, rfl, h⟩
    exact h

/-- A place among the tags is no tag in a value that comes straight from a text. -/
theorem tagOfValue_parsed_eq_ok_iff {v : Json} :
    tagOfValue name all .parsed v = .ok tag ↔
      ∃ s, v = .string s ∧ Decoder.pick name all s = .ok tag := by
  constructor
  · intro h
    rw [tagOfValue.eq_def] at h
    split at h
    · exact ⟨_, rfl, h⟩
    · rw [if_pos (.inl rfl)] at h
      cases h
    · cases h
  · rintro ⟨s, rfl, h⟩
    exact h

section Members

variable {ms : List (String × Outline)} {ws : List (String × Json)}

theorem tags_of_hasMember (h : List.Forall₂ (Outline.HasMember n) (ms.map Format.named) ws) :
    List.Forall₂ (fun o v => o.value? n = some v) (tags ms) (tags ws) := by
  have hUnder := Outline.under_of_hasMember h [tagName]
  rwa [Format.under_map_named, valuesUnder_tagName, valuesUnder_tagName] at hUnder

theorem others_of_hasMember (h : List.Forall₂ (Outline.HasMember n) (ms.map Format.named) ws) :
    List.Forall₂ (fun m e => e.1 = m.1 ∧ keepText n m.2 = .ok e.2) (others ms) (others ws) := by
  have hMembers : List.Forall₂ (fun m e => e.1 = m.1 ∧ keepText n m.2 = .ok e.2) ms ws :=
    (List.forall₂_map_left_iff.mp h).imp fun m e hm =>
      ⟨(Option.some.inj hm.1).symm, keepText_eq_ok_iff.mpr hm.2⟩
  refine List.rel_filter ?_ hMembers
  rintro m e ⟨hName, -⟩
  simp only [hName]

end Members

theorem exists_value_of_split (h : (split name all).text n o = .ok (tag, es)) :
    ∃ ws, o.value? n = some (.object ws) := by
  obtain ⟨ms, t, rfl, hLevels, hTags, hTag, hAside⟩ := split_text_eq_ok_iff.mp h
  have hValued : ∀ m ∈ ms, ∃ v, m.2.value? (n - 1) = some v := by
    intro m hm
    by_cases hName : m.1 = tagName
    · obtain ⟨s, rfl, -⟩ := tagOfText_eq_ok_iff.mp hTag
      have hMem : m.2 ∈ tags ms :=
        List.mem_map_of_mem (List.mem_filter.mpr ⟨hm, decide_eq_true hName⟩)
      rw [hTags, List.mem_singleton] at hMem
      exact ⟨.string s, by rw [hMem]; rfl⟩
    · have hMem : m ∈ others ms := List.mem_filter.mpr ⟨hm, decide_eq_true hName⟩
      obtain ⟨e, -, -, he⟩ := exists_of_forall₂ hAside.flip hMem
      exact ⟨e.2, he⟩
  obtain ⟨ws, hws⟩ := Format.exists_aside (P := fun o v => o.value? (n - 1) = some v) hValued
  have hMembers : List.Forall₂ (Outline.HasMember (n - 1)) (ms.map Format.named) ws :=
    List.forall₂_map_left_iff.mpr (hws.imp fun m e hm => ⟨congrArg some hm.1.symm, hm.2⟩)
  exact ⟨ws, Outline.value?_object.mpr ⟨rfl, hLevels, ws, rfl, hMembers⟩⟩

theorem split_text_eq_ok_iff_value {ws : List (String × Json)}
    (hValue : o.value? n = some (.object ws)) :
    (split name all).text n o = .ok (tag, es) ↔
      (split name all).value .parsed (.object ws) = .ok (tag, es) := by
  obtain ⟨members, rfl, hLevels, hMembers⟩ := Outline.eq_object_of_value? hValue
  obtain ⟨ms, rfl⟩ := Format.exists_named_of_hasMember hMembers
  have hTags := tags_of_hasMember hMembers
  have hOthers := others_of_hasMember hMembers
  constructor
  · intro h
    obtain ⟨ms', t, hSame, -, hSingle, hTag, hAside⟩ := split_text_eq_ok_iff.mp h
    obtain rfl :=
      List.map_injective_iff.mpr Format.named_injective (Outline.object.inj hSame).1
    obtain ⟨s, rfl, hPick⟩ := tagOfText_eq_ok_iff.mp hTag
    rw [hSingle] at hTags
    obtain ⟨v, r, hv, hNil, hFound⟩ := List.forall₂_cons_left_iff.mp hTags
    obtain rfl := List.forall₂_nil_left_iff.mp hNil
    obtain rfl := Option.some.inj hv
    refine split_value_eq_ok_iff.mpr ⟨ws, _, rfl, hFound, hPick, ?_⟩
    exact Format.forall₂_keep_unique
      (hAside.imp fun m e hm => ⟨hm.1, keepText_eq_ok_iff.mpr hm.2⟩) hOthers
  · intro h
    obtain ⟨_, t, hObject, hSingle, hTag, rfl⟩ := split_value_eq_ok_iff.mp h
    cases hObject
    obtain ⟨s, rfl, hPick⟩ := tagOfValue_parsed_eq_ok_iff.mp hTag
    rw [hSingle] at hTags
    obtain ⟨t, r, ht, hNil, hFound⟩ := List.forall₂_cons_right_iff.mp hTags
    obtain rfl := List.forall₂_nil_right_iff.mp hNil
    obtain rfl := Outline.eq_string_of_value? ht
    refine split_text_eq_ok_iff.mpr ⟨ms, _, rfl, hLevels, hFound, hPick, ?_⟩
    exact hOthers.imp fun m e hm => ⟨hm.1, keepText_eq_ok_iff.mp hm.2⟩

end Tagged

/-! ## Identifiables -/

namespace Identifiable

variable {s : String} {i : Identifiable}

theorem text_eq_ok_iff_value {n : Nat} {o : Outline} :
    decoder.text n o = .ok i ↔
      ∃ v, o.value? n = some v ∧ decoder.value .parsed v = .ok i := by
  constructor
  · intro h
    obtain ⟨⟨k, es⟩, hSplit, hMembers⟩ := exists_of_bind_eq_ok h
    obtain ⟨ws, hValue⟩ := Tagged.exists_value_of_split hSplit
    refine ⟨.object ws, hValue, ?_⟩
    change ((Tagged.split Kind.name Kind.all).value .parsed (.object ws)).bind _ = _
    rw [(Tagged.split_text_eq_ok_iff_value hValue).mp hSplit]
    exact hMembers
  · rintro ⟨v, hValue, h⟩
    obtain ⟨⟨k, es⟩, hSplit, hMembers⟩ := exists_of_bind_eq_ok h
    obtain ⟨ws, -, rfl, -⟩ := Tagged.split_value_eq_ok_iff.mp hSplit
    change ((Tagged.split Kind.name Kind.all).text n o).bind _ = _
    rw [(Tagged.split_text_eq_ok_iff_value hValue).mpr hSplit]
    exact hMembers

theorem ofText_eq_ok_iff :
    decoder.ofText s = .ok i ↔
      ∃ v, Json.rawOfText? s = some v ∧ decoder.value .parsed v = .ok i := by
  rw [Decoder.ofText_eq_ok_iff, text_eq_ok_iff_value, Json.rawOfText?]
  by_cases hAlone : (Outline.ofText s).2 = true
  · simp [hAlone]
  · simp [hAlone]

end Identifiable

namespace Document

variable {s : String} {i : Identifiable} {es : List Identifiable}

theorem decode_of_ofText (h : Identifiable.decoder.ofText s = .ok i) : decode s = .ok [i] := by
  obtain ⟨v, hRaw, hDecode⟩ := Identifiable.ofText_eq_ok_iff.mp h
  have hCanonical : Identifiable.decoder.value .parsed v.canonical = .ok i :=
    Identifiable.decoder_fits.value _ Json.canonical_simulation .parsed v _ i rfl hDecode
  rw [decode, Json.ofText?_eq_map_rawOfText?, hRaw]
  obtain ⟨⟨k, es⟩, hSplit, -⟩ := exists_of_bind_eq_ok hCanonical
  obtain ⟨ms, -, hObject, -⟩ := Tagged.split_value_eq_ok_iff.mp hSplit
  simp only [Option.map_some, hObject, decodeValue] at hCanonical ⊢
  rw [hCanonical]
  rfl

theorem ofText_of_decode (hArray : ∀ items, Json.ofText? s ≠ some (.array items))
    (hDistinct : ∀ v, Json.rawOfText? s = some v → v.Distinct) (h : decode s = .ok es) :
    ∃ i, es = [i] ∧ Identifiable.decoder.ofText s = .ok i := by
  rw [Json.ofText?_eq_map_rawOfText?] at hArray
  rw [decode, Json.ofText?_eq_map_rawOfText?] at h
  cases hRaw : Json.rawOfText? s with
  | none => rw [hRaw] at h; cases h
  | some v =>
    rw [hRaw] at h hArray
    rcases decodeValue_inv h with ⟨items, hItems, -⟩ | ⟨i, rfl, hDecode⟩
    · exact absurd (congrArg some hItems) (hArray items)
    · have hRawDecode : Identifiable.decoder.value .parsed v = .ok i :=
        Identifiable.decoder_fits.value _ Json.alike_simulation .parsed _ v i
          (.canonical (hDistinct v hRaw)) hDecode
      exact ⟨i, rfl, Identifiable.ofText_eq_ok_iff.mpr ⟨v, hRaw, hRawDecode⟩⟩

/-- What is read from a text of its own is read as a document of one. If the text is no array and
repeats no name, the two readings have the same outcome. -/
theorem read_agrees_with_readEntity (s : String) :
    (∀ i, readEntity Identifiable.decoder Identifiable.check s = .ok i → read s = .ok [i]) ∧
    ((∀ items, Json.ofText? s ≠ some (.array items)) →
      (∀ v, Json.rawOfText? s = some v → v.Distinct) →
      Fault.SameOutcome (fun i => [i]) (readEntity Identifiable.decoder Identifiable.check s)
        (read s)) := by
  refine ⟨fun i hi => ?_, fun hArray hDistinct => ?_⟩
  · obtain ⟨hText, hCheck⟩ := ofText_of_readEntity hi
    rw [read, decode_of_ofText hText]
    change (Fault.ofChecked (checkAll Identifiable.check [i])).bind (fun _ => .ok [i]) = _
    rw [checkAll_singleton, hCheck]
    rfl
  · refine Fault.sameOutcome_of_decoded (checkAll_singleton Identifiable.check)
      (fun i hi => decode_of_ofText hi) fun es hes => ?_
    obtain ⟨i, -, hi⟩ := ofText_of_decode hArray hDistinct hes
    exact ⟨i, hi⟩

/-- The tag may stand in front, and a member that is not known does not matter. -/
theorem read_agrees_on_one_description :
    let text := "\x7b\"modelType\": \"ConceptDescription\", \"note\": null, \"id\": \"a\"\x7d"
    let i := Identifiable.conceptDescription { identity := { id := "a" } }
    read text = .ok [i] ∧
      Fault.SameOutcome (fun i => [i]) (readEntity Identifiable.decoder Identifiable.check text)
        (read text) := by
  have hRead : readEntity Identifiable.decoder Identifiable.check
      "\x7b\"modelType\": \"ConceptDescription\", \"note\": null, \"id\": \"a\"\x7d" =
      .ok (.conceptDescription { identity := { id := "a" } }) := by
    cbv
  have hRaw : Json.rawOfText?
      "\x7b\"modelType\": \"ConceptDescription\", \"note\": null, \"id\": \"a\"\x7d" =
      some (.object
        [("modelType", .string "ConceptDescription"), ("note", .null), ("id", .string "a")]) := by
    cbv
  obtain ⟨hOne, hSame⟩ := read_agrees_with_readEntity
    "\x7b\"modelType\": \"ConceptDescription\", \"note\": null, \"id\": \"a\"\x7d"
  refine ⟨hOne _ hRead, hSame (fun items => ?_) fun v hv => ?_⟩
  · rw [Json.ofText?_eq_map_rawOfText?, hRaw, Option.map_some, Json.canonical_object]
    exact fun h => by cases h
  · obtain rfl := Option.some.inj (hRaw.symm.trans hv)
    refine .object (by decide) ?_
    simp only [List.forall_mem_cons]
    exact ⟨.string _, .null, .string _, fun _ h => absurd h List.not_mem_nil⟩

end Document

end AssetShell
