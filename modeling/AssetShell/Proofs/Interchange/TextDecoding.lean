import AssetShell.Proofs.Interchange.DocumentRoundTrip
import AssetShell.Proofs.Interchange.TaggedFits

/-!
# Decoding a text and its value

Decoding from an outline succeeds where decoding from the value of the outline does, with the same
result. So it is for strings, names and lists of what follows its value, and for records without
blocks whose components follow their values: what is not known only has to keep to the form.
-/

namespace AssetShell

namespace Decoder

variable {α : Type} {d : Decoder α}

/-- What is decoded from the value of an outline is decoded from the outline. -/
def FollowsValue (d : Decoder α) : Prop :=
  ∀ n o v a, o.value? n = some v → d.value .parsed v = .ok a → d.text n o = .ok a

theorem string_followsValue : string.FollowsValue := by
  intro n o v s hValue h
  cases v with
  | string t =>
    rw [Outline.eq_string_of_value? hValue]
    exact h
  | _ => cases h

theorem named_followsValue {name : α → String} {all : List α} :
    (named name all).FollowsValue := by
  intro n o v a hValue h
  simp only [named] at h
  split at h
  · rw [Outline.eq_string_of_value? hValue]
    exact h
  · rename_i s w
    obtain ⟨found, hPick, h⟩ := exists_of_bind_eq_ok h
    obtain rfl : w = .null := by
      cases w with
      | null => rfl
      | _ => cases h
    cases h
    obtain ⟨_, rfl, hLevels, hMembers⟩ := Outline.eq_object_of_value? hValue
    obtain ⟨⟨_, o⟩, _, ⟨rfl, hNull⟩, hNil, rfl⟩ := List.forall₂_cons_right_iff.mp hMembers
    obtain rfl := List.forall₂_nil_right_iff.mp hNil
    obtain rfl := Outline.eq_null_of_value? hNull
    simp only [named, if_neg (Nat.ne_of_gt hLevels), hPick]
    rfl
  · cases h

theorem FollowsValue.items (hd : d.FollowsValue) {n : Nat} {os : List Outline} {vs : List Json}
    {as : List α} (hValues : List.Forall₂ (fun o v => o.value? n = some v) os vs)
    (h : List.Forall₂ (fun v a => d.value .parsed v = .ok a) vs as) :
    List.Forall₂ (fun o a => d.text n o = .ok a) os as := by
  induction hValues generalizing as with
  | nil =>
    cases h
    exact .nil
  | cons hValue _ ih =>
    obtain _ | ⟨ha, hRest⟩ := h
    exact .cons (hd _ _ _ _ hValue ha) (ih hRest)

theorem FollowsValue.list (hd : d.FollowsValue) : d.list.FollowsValue := by
  intro n o v as hValue h
  obtain ⟨vs, rfl, hItems⟩ := Codec.list_value_eq_ok_iff.mp h
  obtain ⟨os, rfl, hLevels, hValues⟩ := Outline.eq_array_of_value? hValue
  exact Codec.list_text_eq_ok_iff.mpr ⟨os, rfl, hLevels, hd.items hValues hItems⟩

end Decoder

/-! ## Records -/

namespace Format

variable {σ : Type} {F : Format σ} {n : Nat}

theorem sequence_followsValue (F : Format σ) {cs : List (Component σ)}
    (hComponents : ∀ c ∈ cs, c.decoder.FollowsValue) {os : List Outline} {vs : List Json} {s t : σ}
    (hValues : List.Forall₂ (fun o v => o.value? n = some v) os vs)
    (h : Scheme.sequence (fun f v => f.decoder.value .parsed v) (cs.map Component.field) vs s =
      .ok t) :
    Scheme.sequence (fun f o => f.decoder.text n o) (cs.map Component.field) os s = .ok t := by
  induction cs generalizing os vs s with
  | nil =>
    cases hValues with
    | nil => exact h
    | cons _ _ => cases h
  | cons c cs ih =>
    rw [List.forall_mem_cons] at hComponents
    cases hValues with
    | nil =>
      rw [List.map_cons, Scheme.sequence] at h ⊢
      split at h
      · cases h
      · rename_i hMandatory
        rw [if_neg hMandatory]
        exact ih hComponents.2 .nil h
    | cons hValue hRest =>
      obtain ⟨b, hb, h⟩ := (sequence_cons_eq_ok_iff (R := .value .parsed)).mp h
      refine (sequence_cons_eq_ok_iff (R := .text F.scheme n)).mpr ⟨b, ?_, ih hComponents.2 hRest h⟩
      exact hComponents.1 _ _ _ _ hValue hb

theorem under_of_hasMember {c : Component σ} {ms : List (String × Outline)}
    {ws : List (String × Json)}
    (h : List.Forall₂ (Outline.HasMember n) (ms.map named) ws) :
    List.Forall₂ (fun m w => m.2.value? n = some w.2) (under c ms) (under c ws) := by
  have hMembers : List.Forall₂ (fun m w => m.1 = w.1 ∧ m.2.value? n = some w.2) ms ws :=
    (List.forall₂_map_left_iff.mp h).imp fun m w hm => ⟨Option.some.inj hm.1, hm.2⟩
  have hUnder := List.rel_filter (p := fun m => c.isNamed m.1) (q := fun w => c.isNamed w.1)
    (fun m w hm => by simp only [hm.1]) hMembers
  exact hUnder.imp fun m w hm => hm.2

/-- Records without blocks do not keep what their components do not ask for. -/
theorem Lawful.followsValue (h : F.Lawful) (hParts : F.parts = [])
    (hComponents : ∀ c ∈ F.components, c.decoder.FollowsValue) :
    F.scheme.decoder.FollowsValue := by
  intro n o v a hValue ha
  cases v with
  | object ws =>
    obtain ⟨members, rfl, hLevels, hMembers⟩ := Outline.eq_object_of_value? hValue
    obtain ⟨ms, rfl⟩ := exists_named_of_hasMember hMembers
    have hWhole : ∀ m ∈ F.foreign ms, ∃ v, F.scheme.keepText (n - 1) m.2 = .ok v := by
      intro m hm
      obtain ⟨e, -, -, hValue⟩ :=
        exists_of_forall₂ hMembers.flip (List.mem_map_of_mem (List.mem_of_mem_filter hm))
      refine exists_keepText_iff.mpr ?_
      rw [hParts]
      exact Outline.isWhole_of_value? hValue
    obtain ⟨es, hAside⟩ := exists_aside (P := fun o v => F.scheme.keepText (n - 1) o = .ok v) hWhole
    refine h.ofText_object_eq_ok_iff.mpr ⟨rfl, hLevels, ms, es, rfl, ?_, hAside, ?_⟩
    · intro c hc
      have hUnder := under_of_hasMember (c := c) hMembers
      rcases (h.ofMembers_eq_ok_iff.mp ha).component c hc with ⟨hNone, hBlank⟩ | ⟨w, hSingle, hRead⟩
      · rw [hNone, List.forall₂_nil_right_iff] at hUnder
        exact .inl ⟨hUnder, hBlank⟩
      · rw [hSingle] at hUnder
        obtain ⟨m, r, hm, hNil, hFound⟩ := List.forall₂_cons_right_iff.mp hUnder
        obtain rfl := List.forall₂_nil_right_iff.mp hNil
        exact .inr ⟨m, hFound, hComponents c hc _ _ _ _ hm hRead⟩
    · intro p hp
      rw [hParts] at hp
      exact absurd hp List.not_mem_nil
  | array vs =>
    obtain ⟨os, rfl, hLevels, hItems⟩ := Outline.eq_array_of_value? hValue
    refine ofText_array_eq_ok_iff.mpr ⟨rfl, hLevels, hParts, ?_⟩
    change (if F.scheme.blocks.isEmpty then _ else _) = _ at ha
    split at ha
    · exact sequence_followsValue F hComponents hItems ha
    · cases ha
  | _ => cases ha

end Format

/-! ## References -/

theorem Key.decoder_followsValue : Key.scheme.decoder.FollowsValue := by
  refine Key.format_lawful.followsValue rfl ?_
  refine List.forall_mem_cons.mpr ⟨Decoder.named_followsValue, ?_⟩
  exact List.forall_mem_singleton.mpr Decoder.string_followsValue

namespace Reference

theorem Draft.decoder_followsValue : Draft.scheme.decoder.FollowsValue := by
  refine Draft.format_lawful.followsValue rfl ?_
  refine List.forall_mem_cons.mpr ⟨Decoder.named_followsValue, ?_⟩
  exact List.forall_mem_singleton.mpr Key.decoder_followsValue.list

/-- A text is decoded like its value, once that is a draft. The chain is checked for both. -/
theorem ofText_of_draft {s : String} {v : Json} {d : Draft} (hText : Json.rawOfText? s = some v)
    (hDraft : Draft.scheme.ofValue .parsed v = .ok d) : decoder.ofText s = d.check := by
  obtain ⟨o, alone, hOutline⟩ : ∃ o alone, Outline.ofText s = (o, alone) := ⟨_, _, rfl⟩
  rw [Json.rawOfText?, hOutline] at hText
  simp only at hText
  split at hText
  · rename_i hAlone
    have hDecode : decoder.text Json.maxLevels o = d.check := by
      have hRead : Draft.scheme.ofText Json.maxLevels o = .ok d :=
        Draft.decoder_followsValue _ _ _ _ hText hDraft
      change (Draft.scheme.ofText Json.maxLevels o).bind Draft.check = d.check
      rw [hRead]
      rfl
    simp only [Decoder.ofText, hOutline, hDecode, hAlone, if_true]
    cases d.check <;> rfl
  · cases hText

/-- A draft nests as deep as its keys, and they hold nothing but strings. -/
theorem Draft.depth_toJson_le (d : Draft) : d.toJson.depth ≤ 3 := by
  have hKeys : Json.depthOfItems (d.keys.map Key.toJson) ≤ 1 :=
    Json.depthOfItems_le_iff.mpr (List.forall_mem_map.mpr fun _ _ => le_rfl)
  simp only [toJson, members, Json.depth, Json.depthOfMembers]
  omega

/-- However a draft is written, it is decoded as its chain is checked. -/
theorem decode_draft (d : Draft) :
    (∀ held v, v.Alike d.toJson → decoder.value held v = d.check) ∧
      (∀ s v, Json.rawOfText? s = some v → v.Alike d.toJson → decoder.ofText s = d.check) ∧
      ∀ f : OutputFormat, decoder.ofText (f.render d.toJson) = d.check := by
  have hValue : ∀ held v, v.Alike d.toJson → decoder.value held v = d.check := by
    intro held v hv
    change (Draft.scheme.ofValue held v).bind Draft.check = d.check
    rw [restores_draft hv]
    rfl
  have hText : ∀ s v, Json.rawOfText? s = some v → v.Alike d.toJson →
      decoder.ofText s = d.check := fun s v hText hv => ofText_of_draft hText (restores_draft hv)
  refine ⟨hValue, hText, fun f => hText _ _ (f.rawOfText?_render d.tidy_toJson ?_) ?_⟩
  · exact d.depth_toJson_le.trans (by decide)
  · exact .canonical d.tidy_toJson.distinct

end Reference

end AssetShell
