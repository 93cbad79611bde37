import AssetShell.Proofs.Interchange.Fits
import AssetShell.Proofs.Interchange.TaggedCodec

/-!
# Tagged objects that fit a pattern

A family fits the variants of a pattern if they have the same names in the same order and the object
of each variant fits the slots of its record. The tag itself is one more slot, so it is carried over
like the members of the record, wherever it stands among them.
-/

namespace AssetShell

namespace Tagged

theorem valuesUnder_tagName {ν : Type} (ms : List (String × ν)) :
    valuesUnder [tagName] ms = tags ms := by
  simp [valuesUnder, tags]

theorem ne_tagName_of_mem_slots {k : RecordKind} {s : Slot} (hs : s ∈ k.slots) :
    ∀ name ∈ s.names, decide (name ≠ tagName) = true := by
  intro name hName
  refine decide_eq_true ?_
  rintro rfl
  have hNodup := k.names_nodup
  rw [List.flatMap_cons, List.nodup_append] at hNodup
  exact hNodup.2.2 _ List.mem_cons_self _ (List.mem_flatMap.mpr ⟨s, hs, hName⟩) rfl

theorem valuesUnder_others {ν : Type} {k : RecordKind} {s : Slot} (hs : s ∈ k.slots)
    (ms : List (String × ν)) : valuesUnder s.names (others ms) = valuesUnder s.names ms :=
  valuesUnder_filter (q := fun name => name ≠ tagName) (ne_tagName_of_mem_slots hs) ms

theorem exists_tag_of_carried {ν : Type} {view : ν → Option Json} {S : Pattern → ν → ν → Prop}
    {t : ν} {ws : List ν} (h : Carried view S Slot.tag.pattern [t] ws) :
    ∃ t', ws = [t'] ∧ S .plain t t' := by
  cases h with
  | single h => exact ⟨_, rfl, h⟩
  | nullRemoved hp => cases hp

namespace Family

variable {τ α : Type} {F : Family τ α} {variants : List (String × RecordKind)}

/-- The variants of the family are those of the pattern, in their order. -/
def Fits (F : Family τ α) (variants : List (String × RecordKind)) : Prop :=
  List.Forall₂
    (fun t v => F.name t = v.1 ∧ ∀ x, F.variant? t = some x → x.object.Fits v.2.slots)
    F.all variants

theorem Fits.lookup (hF : F.Fits variants) {s : String} {t : τ}
    (h : Decoder.pick F.name F.all s = .ok t) :
    ∃ k, variants.lookup s = some k ∧ ∀ x, F.variant? t = some x → x.object.Fits k.slots := by
  have hFind : F.all.find? (fun a => F.name a = s) = some t := by
    rw [Decoder.pick] at h
    split at h
    · cases h
      assumption
    · cases h
  rw [Fits] at hF
  generalize F.all = all at hF hFind
  induction hF with
  | nil => cases hFind
  | @cons u v all variants hFirst _ ih =>
    obtain ⟨name, k⟩ := v
    obtain ⟨rfl, hObject⟩ := hFirst
    by_cases hName : F.name u = s
    · rw [List.find?_cons_of_pos (by simpa using hName)] at hFind
      cases hFind
      exact ⟨k, by rw [hName, List.lookup_cons_self], hObject⟩
    · rw [List.find?_cons_of_neg (by simpa using hName)] at hFind
      obtain ⟨k', hLookup, hObject'⟩ := ih hFind
      exact ⟨k', by rwa [List.lookup_cons, beq_false_of_ne (Ne.symm hName)], hObject'⟩

theorem Fits.place (hF : F.Fits variants) {i : Nat} {t : τ} (h : F.all[i]? = some t) :
    ∃ name k, variants[i]? = some (name, k) ∧ ∀ x, F.variant? t = some x → x.object.Fits k.slots := by
  obtain ⟨hi, rfl⟩ := List.getElem?_eq_some_iff.mp h
  have hLength : i < variants.length := List.Forall₂.length_eq hF ▸ hi
  have hVariant := List.Forall₂.get hF hi hLength
  exact ⟨_, _, List.getElem?_eq_getElem hLength, hVariant.2⟩

theorem Fits.tagSays_of_value (hF : F.Fits variants) {held : Held} {v : Json} {t : τ}
    (h : tagOfValue F.name F.all held v = .ok t) :
    ∃ k, TagSays variants v k ∧ v.parts = [] ∧
      ∀ x, F.variant? t = some x → x.object.Fits k.slots := by
  rw [tagOfValue.eq_def] at h
  split at h
  · obtain ⟨k, hLookup, hObject⟩ := hF.lookup h
    exact ⟨k, .name hLookup, rfl, hObject⟩
  · split at h
    · cases h
    · rename_i i hi
      obtain ⟨i, rfl⟩ := Int.eq_ofNat_of_zero_le (not_lt.mp (not_or.mp hi).2)
      split at h
      · rename_i hPlace
        cases h
        obtain ⟨name, k, hVariant, hObject⟩ := hF.place hPlace
        exact ⟨k, .place hVariant, rfl, hObject⟩
      · cases h
  · cases h

theorem Fits.tagSays_of_text (hF : F.Fits variants) {o : Outline} {t : τ}
    (h : tagOfText F.name F.all o = .ok t) (n : Nat) :
    ∃ v k, o.value? n = some v ∧ TagSays variants v k ∧
      ∀ x, F.variant? t = some x → x.object.Fits k.slots := by
  rw [tagOfText.eq_def] at h
  split at h
  · obtain ⟨k, hLookup, hObject⟩ := hF.lookup h
    exact ⟨_, k, rfl, .name hLookup, hObject⟩
  · cases h

theorem ofMembers_of_carried {k : RecordKind} {t : τ}
    (hObject : ∀ x, F.variant? t = some x → x.object.Fits k.slots)
    {R : Pattern → Json → Json → Prop} (hR : Json.Simulation R) {es fs : List (String × Json)}
    {a : α}
    (hCarried : ∀ s ∈ k.slots,
      Carried some R s.pattern (valuesUnder s.names es) (valuesUnder s.names fs))
    (h : F.ofMembers es t = .ok a) : F.ofMembers fs t = .ok a := by
  obtain ⟨x, b, hx, rfl, hb⟩ := ofMembers_inv h
  simp only [ofMembers, hx]
  rw [(hObject x hx).members R hR .kept es fs b hCarried hb]
  rfl

theorem valued_others_of_kept {slots : List Slot} {n : Nat} {ms ns : List (String × Outline)}
    (hKept : Outline.Kept (.tag :: slots) n (ms.map Format.named) (ns.map Format.named))
    (h : ∀ m ∈ others ms, ∃ v, m.2.value? n = some v) :
    ∀ m ∈ others ns, ∃ v, m.2.value? n = some v := by
  intro m hm
  obtain ⟨hm, hName⟩ := List.mem_filter.mp hm
  rcases hKept _ (List.mem_map_of_mem hm) with ⟨-, hValue⟩ | ⟨_, hBefore, hStands⟩
  · exact Option.isSome_iff_exists.mp hValue
  · obtain ⟨m', hm', rfl⟩ := List.mem_map.mp hBefore
    have hSame : decide (m.1 ∈ Slot.tag.names) = decide (m'.1 ∈ Slot.tag.names) :=
      hStands.slots .tag List.mem_cons_self
    have hOther : m' ∈ others ms := List.mem_filter.mpr ⟨hm', by simp_all [Slot.tag]⟩
    exact Option.isSome_iff_exists.mp
      (hStands.valued (Option.isSome_iff_exists.mpr (h m' hOther)))

theorem Fits.decoder_fits (hF : F.Fits variants) : F.codec.decoder.Fits (.tagged variants) where
  value R hR held v w a hRel ha := by
    obtain ⟨⟨t, es⟩, hSplit, hMembers⟩ := exists_of_bind_eq_ok ha
    obtain ⟨ms, tag, rfl, hTags, hTag, rfl⟩ := split_value_eq_ok_iff.mp hSplit
    obtain ⟨k, hSays, hLeaf, hObject⟩ := hF.tagSays_of_value hTag
    rw [← valuesUnder_tagName] at hTags
    obtain ⟨ns, rfl, hCarried⟩ := hR.object _ ms w _ hRel (.tagged hTags rfl hSays)
    rw [List.forall_mem_cons] at hCarried
    obtain ⟨tag', hTags', hSame⟩ := exists_tag_of_carried (hTags ▸ hCarried.1)
    obtain rfl := hR.plain tag tag' hSame (.leaf hLeaf)
    have hSplit' : (split F.name F.all).value held (.object ns) = .ok (t, others ns) :=
      split_value_eq_ok_iff.mpr ⟨ns, tag', rfl, valuesUnder_tagName ns ▸ hTags', hTag, rfl⟩
    change ((split F.name F.all).value held (.object ns)).bind _ = _
    rw [hSplit']
    refine ofMembers_of_carried hObject hR (fun s hs => ?_) hMembers
    rw [valuesUnder_others hs, valuesUnder_others hs]
    exact hCarried.2 s hs
  text R hR n o o' a hRel ha := by
    obtain ⟨⟨t, es⟩, hSplit, hMembers⟩ := exists_of_bind_eq_ok ha
    obtain ⟨ms, tag, rfl, hLevels, hTags, hTag, hAside⟩ := split_text_eq_ok_iff.mp hSplit
    obtain ⟨v, k, hView, hSays, hObject⟩ := hF.tagSays_of_text hTag (n - 1)
    rw [← valuesUnder_tagName] at hTags
    obtain ⟨members, rfl, hKept, hCarried⟩ := hR.object _ n (ms.map Format.named) true o' _ hRel
      (.tagged ((Format.under_map_named _ ms).trans hTags) hView hSays)
    obtain ⟨ns, rfl⟩ := Format.exists_named_of_kept hKept
    simp only [Format.under_map_named, List.forall_mem_cons] at hCarried
    obtain ⟨tag', hTags', hSame⟩ := exists_tag_of_carried (hTags ▸ hCarried.1)
    obtain rfl := hR.plain (n - 1) tag tag' hSame
    have hValued := valued_others_of_kept hKept fun m hm => by
      obtain ⟨e, -, -, he⟩ := exists_of_forall₂ hAside.flip hm
      exact ⟨e.2, he⟩
    obtain ⟨fs, hAside'⟩ :=
      Format.exists_aside (P := fun o v => o.value? (n - 1) = some v) hValued
    have hSplit' : (split F.name F.all).text n (.object (ns.map Format.named) true) = .ok (t, fs) :=
      split_text_eq_ok_iff.mpr
        ⟨ns, tag', rfl, hLevels, valuesUnder_tagName ns ▸ hTags', hTag, hAside'⟩
    change ((split F.name F.all).text n (.object (ns.map Format.named) true)).bind _ = _
    rw [hSplit']
    refine ofMembers_of_carried hObject hR.onValues (fun s hs => ?_) hMembers
    exact Format.carried_aside (ne_tagName_of_mem_slots hs) hAside hAside' (hCarried.2 s hs)

end Family

end Tagged

end AssetShell
