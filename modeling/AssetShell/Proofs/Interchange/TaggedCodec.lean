import AssetShell.Interchange.Tagged
import AssetShell.Proofs.Interchange.FormatCodec

/-!
# Codecs of tagged objects

The tag of an object may stand anywhere among its members; what is set aside are the other members
in their order. A family of variants, one for a tag, gives a lawful codec if the objects of the
variants are lawful and none of them asks for a member with the name of the tag.
-/

namespace AssetShell

namespace Tagged

variable {τ α ν : Type} {n : Nat}

/-! ## Splitting off the tag -/

def others (ms : List (String × ν)) : List (String × ν) := ms.filter fun m => m.1 ≠ tagName

theorem others_of_forall {ms : List (String × ν)} (h : ∀ m ∈ ms, m.1 ≠ tagName) : others ms = ms :=
  List.filter_eq_self.mpr fun m hm => decide_eq_true (h m hm)

/-- The values of the tags of an object. -/
def tags (ms : List (String × ν)) : List ν := (ms.filter fun m => m.1 = tagName).map Prod.snd

def run (decode : ν → Decoded τ) (keep : ν → Decoded Json) (p : Progress τ)
    (ms : List (String × ν)) : Decoded (Progress τ) :=
  ms.foldlM (fun p m => entry decode keep p m.1 m.2) p

section Run

variable {decode : ν → Decoded τ} {keep : ν → Decoded Json} {p q : Progress τ}
  {ms : List (String × ν)}

/-- What a run has done: it has met at most one tag, and set the other entries aside in order. -/
structure Ran (decode : ν → Decoded τ) (keep : ν → Decoded Json) (p : Progress τ)
    (ms : List (String × ν)) (q : Progress τ) : Prop where
  tag : (tags ms = [] ∧ q.tag = p.tag) ∨
    p.tag = none ∧ ∃ t tag, tags ms = [t] ∧ decode t = .ok tag ∧ q.tag = some tag
  aside : ∃ es, q.aside.reverse = p.aside.reverse ++ es ∧
    List.Forall₂ (fun m e => e.1 = m.1 ∧ keep m.2 = .ok e.2) (others ms) es

theorem ran_nil_iff : Ran decode keep p [] q ↔ q = p := by
  constructor
  · rintro ⟨hTag, es, hAside, hKept⟩
    obtain rfl := List.forall₂_nil_left_iff.mp hKept
    rcases hTag with ⟨-, hTag⟩ | ⟨-, _, _, hSingle, -⟩
    · rw [List.append_nil, List.reverse_inj] at hAside
      cases p
      cases q
      cases hTag
      cases hAside
      rfl
    · cases hSingle
  · rintro rfl
    exact ⟨.inl ⟨rfl, rfl⟩, [], (List.append_nil _).symm, .nil⟩

theorem ran_tag_iff {v : ν} :
    Ran decode keep p ((tagName, v) :: ms) q ↔
      p.tag = none ∧ ∃ tag, decode v = .ok tag ∧ Ran decode keep { p with tag := some tag } ms q := by
  have hTags : tags ((tagName, v) :: ms) = v :: tags ms := by simp [tags]
  have hOthers : others ((tagName, v) :: ms) = others ms := by simp [others]
  constructor
  · rintro ⟨hTag, hAside⟩
    rw [hTags] at hTag
    rw [hOthers] at hAside
    rcases hTag with ⟨hNone, -⟩ | ⟨hNew, t, tag, hSingle, hDecode, hTag⟩
    · cases hNone
    · obtain ⟨rfl, hEmpty⟩ := List.cons.inj hSingle
      exact ⟨hNew, tag, hDecode, .inl ⟨hEmpty, hTag⟩, hAside⟩
  · rintro ⟨hNew, tag, hDecode, hTag, hAside⟩
    rcases hTag with ⟨hEmpty, hTag⟩ | ⟨hNone, -⟩
    · exact ⟨.inr ⟨hNew, v, tag, by rw [hTags, hEmpty], hDecode, hTag⟩, by rwa [hOthers]⟩
    · cases hNone

theorem ran_other_iff {name : String} {v : ν} (hName : name ≠ tagName) :
    Ran decode keep p ((name, v) :: ms) q ↔
      ∃ w, keep v = .ok w ∧ Ran decode keep { p with aside := (name, w) :: p.aside } ms q := by
  have hTags : tags ((name, v) :: ms) = tags ms := by simp [tags, hName]
  have hOthers : others ((name, v) :: ms) = (name, v) :: others ms := by simp [others, hName]
  constructor
  · rintro ⟨hTag, es, hAside, hKept⟩
    rw [hTags] at hTag
    rw [hOthers] at hKept
    obtain ⟨⟨_, w⟩, rest, ⟨rfl, hw⟩, hRest, rfl⟩ := List.forall₂_cons_left_iff.mp hKept
    refine ⟨w, hw, hTag, rest, ?_, hRest⟩
    rw [hAside, List.reverse_cons, List.append_assoc, List.singleton_append]
  · rintro ⟨w, hw, hTag, es, hAside, hKept⟩
    refine ⟨by rwa [hTags], (name, w) :: es, ?_, by rw [hOthers]; exact .cons ⟨rfl, hw⟩ hKept⟩
    rw [hAside, List.reverse_cons, List.append_assoc, List.singleton_append]

theorem run_eq_ok_iff : run decode keep p ms = .ok q ↔ Ran decode keep p ms q := by
  induction ms generalizing p with
  | nil =>
    rw [ran_nil_iff]
    exact ⟨fun h => (Except.ok.inj h).symm, fun h => congrArg Except.ok h.symm⟩
  | cons m r ih =>
    obtain ⟨name, v⟩ := m
    rw [run, List.foldlM_cons, entry]
    by_cases hName : name = tagName
    · obtain rfl := hName
      rw [if_pos rfl, ran_tag_iff]
      cases hNew : p.tag with
      | some tag => exact ⟨nofun, nofun⟩
      | none =>
        cases decode v with
        | error f => exact ⟨nofun, nofun⟩
        | ok tag =>
          simp only [true_and, Except.ok.injEq, exists_eq_left']
          exact ih
    · rw [if_neg hName, ran_other_iff hName]
      cases keep v with
      | error f => exact ⟨nofun, nofun⟩
      | ok w =>
        simp only [Except.ok.injEq, exists_eq_left']
        exact ih

/-- The tag of an object and what was set aside of it. -/
theorem split_eq_ok_iff {tag : τ} {es : List (String × Json)} :
    (run decode keep ⟨none, []⟩ ms).bind finish = .ok (tag, es) ↔
      ∃ t, tags ms = [t] ∧ decode t = .ok tag ∧
        List.Forall₂ (fun m e => e.1 = m.1 ∧ keep m.2 = .ok e.2) (others ms) es := by
  constructor
  · intro h
    obtain ⟨q, hRun, hFinish⟩ := exists_of_bind_eq_ok h
    obtain ⟨hTag, found, hAside, hKept⟩ := run_eq_ok_iff.mp hRun
    rw [finish] at hFinish
    rcases hTag with ⟨-, hNone⟩ | ⟨-, t, tag', hSingle, hDecode, hSome⟩
    · rw [hNone] at hFinish
      cases hFinish
    · rw [hSome] at hFinish
      cases hFinish
      exact ⟨t, hSingle, hDecode, hAside ▸ hKept⟩
  · rintro ⟨t, hSingle, hDecode, hKept⟩
    have hRan : Ran decode keep ⟨none, []⟩ ms ⟨some tag, es.reverse⟩ :=
      ⟨.inr ⟨rfl, t, tag, hSingle, hDecode, rfl⟩, es, List.reverse_reverse es, hKept⟩
    rw [run_eq_ok_iff.mpr hRan]
    exact congrArg (fun es => Except.ok (tag, es)) (List.reverse_reverse es)

end Run

variable {name : τ → String} {all : List τ} {tag : τ} {es : List (String × Json)}

theorem keepText_eq_ok_iff {levels : Nat} {o : Outline} {v : Json} :
    keepText levels o = .ok v ↔ o.value? levels = some v := by
  rw [keepText]
  cases o.value? levels <;> simp

theorem split_value_eq_ok_iff {held : Held} {v : Json} :
    (split name all).value held v = .ok (tag, es) ↔
      ∃ ms t, v = .object ms ∧ tags ms = [t] ∧ tagOfValue name all held t = .ok tag ∧
        es = others ms := by
  constructor
  · intro h
    cases v with
    | object ms =>
      obtain ⟨t, hSingle, hDecode, hKept⟩ := split_eq_ok_iff.mp h
      exact ⟨ms, t, rfl, hSingle, hDecode, Format.eq_of_forall₂_keep held hKept⟩
    | array items =>
      cases items with
      | nil => cases h
      | cons v r =>
        obtain ⟨_, -, h⟩ := exists_of_bind_eq_ok h
        cases h
    | _ => cases h
  · rintro ⟨ms, t, rfl, hSingle, hDecode, rfl⟩
    exact split_eq_ok_iff.mpr
      ⟨t, hSingle, hDecode, List.forall₂_same.mpr fun _ _ => ⟨rfl, rfl⟩⟩

/-- Each entry that was set aside from a text is the value of a part of the text. -/
theorem split_text_eq_ok_iff {levels : Nat} {o : Outline} :
    (split name all).text levels o = .ok (tag, es) ↔
      ∃ ms t, o = .object (ms.map Format.named) true ∧ 0 < levels ∧ tags ms = [t] ∧
        tagOfText name all t = .ok tag ∧
        List.Forall₂ (fun m e => e.1 = m.1 ∧ m.2.value? (levels - 1) = some e.2) (others ms) es := by
  have hRun (members : List (Option String × Outline)) (q : Progress τ) :
      members.foldlM (textEntry name all (levels - 1)) ⟨none, []⟩ = .ok q ↔
        ∃ ms, members = ms.map Format.named ∧
          run (tagOfText name all) (keepText (levels - 1)) ⟨none, []⟩ ms = .ok q :=
    Format.foldlM_eq_ok_iff (fun _ _ => rfl) (fun _ _ _ h => by cases h)
  simp only [← keepText_eq_ok_iff]
  constructor
  · intro h
    simp only [split] at h
    split at h
    · rename_i members closed
      split at h
      · cases h
      · rename_i hLevels
        obtain ⟨q, hFold, hFinish⟩ := exists_of_bind_eq_ok h
        split at hFinish
        · rename_i hClosed
          obtain ⟨ms, rfl, hMembers⟩ := (hRun members q).mp hFold
          have hSplit : (run (tagOfText name all) (keepText (levels - 1)) ⟨none, []⟩ ms).bind
              finish = .ok (tag, es) := by rw [hMembers]; exact hFinish
          obtain ⟨t, hFound⟩ := split_eq_ok_iff.mp hSplit
          exact ⟨ms, t, by rw [hClosed], Nat.pos_of_ne_zero hLevels, hFound⟩
        · cases hFinish
    · split at h
      · cases h
      · rename_i items closed _
        cases items with
        | nil => cases h
        | cons o r =>
          obtain ⟨_, -, h⟩ := exists_of_bind_eq_ok h
          cases h
    · cases h
  · rintro ⟨ms, t, rfl, hLevels, hFound⟩
    obtain ⟨q, hMembers, h⟩ := exists_of_bind_eq_ok (split_eq_ok_iff.mpr ⟨t, hFound⟩)
    simp only [split, if_neg (Nat.ne_of_gt hLevels), (hRun _ q).mpr ⟨ms, rfl, hMembers⟩]
    exact h

theorem split_of_alike (hPick : Decoder.pick name all (name tag) = .ok tag)
    {ms members : List (String × Json)} (hMembers : ∀ m ∈ members, m.1 ≠ tagName)
    (h : Json.AlikeMembers ms ((tagName, .string (name tag)) :: members)) (held : Held) :
    (split name all).value held (.object ms) = .ok (tag, others ms) ∧
      Json.AlikeMembers (others ms) members := by
  have hNoTag : (members.filter fun m => m.1 = tagName) = [] :=
    List.filter_eq_nil_iff.mpr fun m hm hName => hMembers m hm (of_decide_eq_true hName)
  have hTagged := h.filter fun other => other = tagName
  rw [List.filter_cons_of_pos (by simp), hNoTag] at hTagged
  obtain ⟨v, hSingle, hv⟩ := hTagged.eq_singleton
  rw [hv.string] at hSingle
  have hOthers := h.filter fun other => other ≠ tagName
  rw [List.filter_cons_of_neg (by simp)] at hOthers
  refine ⟨split_value_eq_ok_iff.mpr ⟨ms, .string (name tag), rfl, ?_, hPick, rfl⟩, ?_⟩
  · rw [tags, hSingle]
    rfl
  · rwa [← others, ← others, others_of_forall hMembers] at hOthers

/-! ## Families of variants -/

/-- What an object is under one tag. -/
structure Variant (α : Type) where
  Content : Type
  object : ObjectCodec Content
  wrap : Content → α

structure Family (τ α : Type) where
  name : τ → String
  all : List τ
  variant? : τ → Option (Variant α)
  tag : α → τ
  members : α → List (String × Json)
  references : α → List Reference

namespace Family

variable {F : Family τ α} {k : τ} {x : Variant α} {es : List (String × Json)} {a : α}

def ofMembers (F : Family τ α) (es : List (String × Json)) (k : τ) : Decoded α :=
  match F.variant? k with
  | some x => (x.object.scheme.ofMembers .kept es).map x.wrap
  | none => .error .malformed

def codec (F : Family τ α) : Codec α where
  decoder := (split F.name F.all).refine fun (k, es) => F.ofMembers es k
  write a := .object ((tagName, .string (F.name (F.tag a))) :: F.members a)
  references := F.references

structure Lawful (F : Family τ α) (n : Nat) : Prop where
  pick : ∀ a, Decoder.pick F.name F.all (F.name (F.tag a)) = .ok (F.tag a)
  covers : ∀ a, ∃ x b, F.variant? (F.tag a) = some x ∧ x.wrap b = a
  members : ∀ k x, F.variant? k = some x → ∀ b, F.members (x.wrap b) = x.object.members b
  references : ∀ k x, F.variant? k = some x → ∀ b, F.references (x.wrap b) = x.object.references b
  untagged : ∀ k x, F.variant? k = some x → tagName ∉ x.object.known
  object : ∀ k x, F.variant? k = some x → x.object.Lawful n

theorem ofMembers_inv (h : F.ofMembers es k = .ok a) :
    ∃ x b, F.variant? k = some x ∧ x.wrap b = a ∧ x.object.scheme.ofMembers .kept es = .ok b := by
  rw [ofMembers] at h
  split at h
  · rename_i x hx
    obtain ⟨b, hb, rfl⟩ := exists_of_map_eq_ok h
    exact ⟨x, b, hx, rfl, hb⟩
  · cases h

theorem decoder_value_inv {held : Held} {v : Json} (h : F.codec.decoder.value held v = .ok a) :
    ∃ ms k, v = .object ms ∧ F.ofMembers (others ms) k = .ok a := by
  obtain ⟨⟨k, es⟩, hSplit, hMembers⟩ := exists_of_bind_eq_ok h
  obtain ⟨ms, -, rfl, -, -, rfl⟩ := split_value_eq_ok_iff.mp hSplit
  exact ⟨ms, k, rfl, hMembers⟩

theorem decoder_text_inv {levels : Nat} {o : Outline} (h : F.codec.decoder.text levels o = .ok a) :
    ∃ es k, (∀ e ∈ es, ∃ o' ∈ o.parts, o'.value? (levels - 1) = some e.2) ∧
      F.ofMembers es k = .ok a := by
  obtain ⟨⟨k, es⟩, hSplit, hMembers⟩ := exists_of_bind_eq_ok h
  obtain ⟨ms, -, rfl, -, -, -, hAside⟩ := split_text_eq_ok_iff.mp hSplit
  refine ⟨es, k, fun e he => ?_, hMembers⟩
  obtain ⟨m, hm, -, hValue⟩ := exists_of_forall₂ hAside he
  refine ⟨m.2, ?_, hValue⟩
  rw [Outline.parts, List.map_map]
  exact List.mem_map_of_mem (List.mem_of_mem_filter hm)

namespace Lawful

variable (h : F.Lawful n)
include h

theorem name_ne_tagName (a : α) : ∀ m ∈ F.members a, m.1 ≠ tagName := by
  intro m hm hName
  obtain ⟨x, b, hx, rfl⟩ := h.covers a
  rw [h.members _ x hx] at hm
  exact h.untagged _ x hx (hName ▸ (h.object _ x hx).names b m hm)

theorem members_nodup (a : α) : (Json.names (F.members a)).Nodup := by
  obtain ⟨x, b, hx, rfl⟩ := h.covers a
  rw [h.members _ x hx]
  exact (h.object _ x hx).names_nodup b

theorem member_tidy {m : String × Json} (hm : m ∈ F.members a) (hDepth : m.2.depth < n) :
    m.2.Tidy := by
  obtain ⟨x, b, hx, rfl⟩ := h.covers a
  rw [h.members _ x hx] at hm
  exact (h.object _ x hx).tidy b m hm hDepth

theorem restores (hDepth : ∀ m ∈ F.members a, m.2.depth < n)
    (hEs : Json.AlikeMembers es (F.members a)) : F.ofMembers es (F.tag a) = .ok a := by
  obtain ⟨x, b, hx, hWrap⟩ := h.covers a
  rw [← hWrap, h.members _ x hx] at hDepth hEs
  simp only [ofMembers, hx]
  rw [(h.object _ x hx).restores b hDepth .kept es hEs, ← hWrap]
  rfl

theorem depthOfMembers_le (ha : F.ofMembers es k = .ok a) :
    Json.depthOfMembers (F.members a) ≤ Json.depthOfMembers es := by
  obtain ⟨x, b, hx, rfl, hb⟩ := ofMembers_inv ha
  rw [h.members k x hx]
  exact (h.object k x hx).depth_le .kept es b hb

theorem exists_holds (ha : F.ofMembers es k = .ok a) {r : Reference} (hr : r ∈ F.references a) :
    ∃ e ∈ es, e.2.Holds r := by
  obtain ⟨x, b, hx, rfl, hb⟩ := ofMembers_inv ha
  rw [h.references k x hx] at hr
  exact (h.object k x hx).of_members .kept es b hb r hr

theorem codec_lawful_succ : F.codec.Lawful (n + 1) where
  tidy a hDepth := by
    have hMember := Json.depth_lt_of_member hDepth
    have hNew : tagName ∉ Json.names (F.members a) := by
      intro hTag
      obtain ⟨m, hm, hName⟩ := List.mem_map.mp hTag
      exact h.name_ne_tagName a m hm hName
    refine .object (List.nodup_cons.mpr ⟨hNew, h.members_nodup a⟩) ?_
    refine List.forall_mem_cons.mpr ⟨.string _, fun m hm => ?_⟩
    exact h.member_tidy hm (hMember m (List.mem_cons_of_mem _ hm))
  restores a hDepth held v hv := by
    obtain ⟨ms, rfl, hms⟩ := hv.object
    obtain ⟨hSplit, hEs⟩ := split_of_alike (h.pick a) (h.name_ne_tagName a) hms held
    have hMember := Json.depth_lt_of_member hDepth
    change ((split F.name F.all).value held (.object ms)).bind _ = _
    rw [hSplit]
    exact h.restores (fun m hm => hMember m (List.mem_cons_of_mem _ hm)) hEs
  depth_le held v a ha := by
    obtain ⟨ms, k, rfl, hMembers⟩ := decoder_value_inv ha
    have hOthers : Json.depthOfMembers (others ms) ≤ Json.depthOfMembers ms :=
      Json.depthOfMembers_le_iff.mpr fun m hm =>
        Json.depth_le_depthOfMembers (List.mem_of_mem_filter hm)
    have hLe := (h.depthOfMembers_le hMembers).trans hOthers
    simpa [codec, Json.depth, Json.depthOfMembers] using hLe
  of_value held v a ha r hr := by
    obtain ⟨ms, k, rfl, hMembers⟩ := decoder_value_inv ha
    obtain ⟨m, hm, hHolds⟩ := h.exists_holds hMembers hr
    exact .inside (List.mem_map_of_mem (List.mem_of_mem_filter hm)) hHolds
  of_text levels o a ha r hr := by
    obtain ⟨es, k, hSource, hMembers⟩ := decoder_text_inv ha
    obtain ⟨e, he, hHolds⟩ := h.exists_holds hMembers hr
    obtain ⟨o', ho', hValue⟩ := hSource e he
    exact .inside ho' (.aside hValue hHolds)

end Lawful

end Family

end Tagged

end AssetShell
