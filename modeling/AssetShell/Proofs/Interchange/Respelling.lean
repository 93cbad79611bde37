import AssetShell.Proofs.Interchange.Edit
import AssetShell.Proofs.Interchange.EntityFits
import AssetShell.Proofs.Interchange.SuccessfulReading
import Mathlib.Logic.Relation

/-!
# Other spellings of an entity

A change of a spelling can be undone and is not seen by the decoders, so that texts which are any
number of changes apart are read as the same entity.
-/

namespace AssetShell

namespace Outline

variable {p : Pattern} {n : Nat} {o o' : Outline} {slots : List Slot} {s : Slot}

/-! ## Respelling is a simulation -/

theorem positions_refl (slots : List Slot) (os : List Outline) :
    Positions (fun p => Respelled p n) slots os os := by
  induction os generalizing slots with
  | nil => exact .done slots
  | cons o r ih =>
    cases slots with
    | nil => exact .surplus
    | cons s slots => exact .next (.refl _ _ o) (ih slots)

theorem positions_of_respelled {l r : List Outline} (hs : slots[l.length]? = some s)
    (h : Respelled s.pattern n o o') :
    Positions (fun p => Respelled p n) slots (l ++ o :: r) (l ++ o' :: r) := by
  induction l generalizing slots with
  | nil =>
    cases slots with
    | nil => cases hs
    | cons t slots =>
      obtain rfl := Option.some.inj hs
      exact .next h (positions_refl slots r)
  | cons x l ih =>
    cases slots with
    | nil => cases hs
    | cons t slots => exact .next (.refl _ _ x) (ih hs)

theorem forall₂_respelled {l r : List Outline} (h : Respelled p n o o') :
    List.Forall₂ (Respelled p n) (l ++ o :: r) (l ++ o' :: r) := by
  have hRefl (os : List Outline) : List.Forall₂ (Respelled p n) os os :=
    List.forall₂_same.mpr fun o _ => .refl _ _ o
  exact List.rel_append (hRefl l) (.cons h (hRefl r))

theorem respelled_simulation : Simulation Respelled where
  plain n o o' h := h.eq_of_plain
  datatype n tag d o h hTag := by
    rcases h with rfl | h | h
    · exact ⟨tag, rfl, hTag⟩
    · obtain ⟨e, he, rfl⟩ := h.datatype_inv
      cases he
      exact ⟨_, rfl, e.ofTag?_marked.trans (e.ofTag?_name.symm.trans hTag)⟩
    · obtain ⟨e, rfl, he⟩ := h.datatype_inv
      cases he
      exact ⟨_, rfl, e.ofTag?_name.trans (e.ofTag?_marked.symm.trans hTag)⟩
  null p n o h := by
    rcases h with h | h | h
    · exact h
    · exact absurd rfl h.ne_null.1
    · exact absurd rfl h.ne_null.2
  present p n o o' h hPresent := by
    rcases h with rfl | h | h
    · exact ⟨hPresent, .refl p n _⟩
    · exact ⟨h.ne_null.2, .inr (.inl h.nullable_inv)⟩
    · exact ⟨h.ne_null.1, .inr (.inr h.nullable_inv)⟩
  list p n os closed o h := by
    rcases h with rfl | h | h
    · exact ⟨os, rfl, List.forall₂_same.mpr fun o _ => .refl _ _ o⟩
    · obtain ⟨l, o₁, o₂, r, closed, hArray, rfl, hItem⟩ := h.list_inv
      cases hArray
      exact ⟨_, rfl, forall₂_respelled (.inr (.inl hItem))⟩
    · obtain ⟨l, o₁, o₂, r, closed, rfl, hArray, hItem⟩ := h.list_inv
      cases hArray
      exact ⟨_, rfl, forall₂_respelled (.inr (.inr hItem))⟩
  object p n ms closed o slots h hAsks := by
    rcases h.cases_of_isObject hAsks.isObject with
      rfl | ⟨_, _, _, _, _, _, _, -, -, hArray, -⟩ | ⟨ms, ns, closed, hObject, rfl, hExchanges⟩
    · exact ⟨ms, rfl, kept_of_perm (.refl ms), fun s _ => (Exchanged.refl _ _ _).carried⟩
    · cases hArray
    · cases hObject
      obtain ⟨⟨hKept, -⟩, hExchanged⟩ := hExchanges slots (.inl hAsks)
      exact ⟨ns, rfl, hKept, fun s hs => (hExchanged s hs).carried⟩
  positions k n os closed o h := by
    rcases h.cases_of_isObject rfl with
      rfl | ⟨_, s, l, o₁, o₂, r, closed, hk, hs, hArray, rfl, hItem⟩ | ⟨_, _, _, hObject, -⟩
    · exact ⟨os, rfl, positions_refl k.slots os⟩
    · cases hk
      cases hArray
      exact ⟨_, rfl, positions_of_respelled hs hItem⟩
    · cases hObject

end Outline

/-! ## Readings of other spellings -/

theorem Decoder.Fits.text_eq_ok_iff {α : Type} {d : Decoder α} {p : Pattern} (hd : d.Fits p)
    {n : Nat} {o o' : Outline} (h : Relation.EqvGen (Outline.Change p n) o o') (a : α) :
    d.text n o = .ok a ↔ d.text n o' = .ok a := by
  induction h with
  | rel o o' h =>
    exact ⟨hd.text _ Outline.respelled_simulation n o o' a (.inr (.inl h)),
      hd.text _ Outline.respelled_simulation n o' o a (.inr (.inr h))⟩
  | refl o => rfl
  | symm _ _ _ ih => exact ih.symm
  | trans _ _ _ _ _ ih ih' => exact ih.trans ih'

/-- Texts whose outlines are any number of changes apart are read with the same outcome. -/
theorem EntityType.read_of_changes (t : EntityType) {s s' : String} {o o' : Outline}
    (hText : Outline.ofText s = (o, true)) (hText' : Outline.ofText s' = (o', true))
    (h : Relation.EqvGen (Outline.Change t.pattern Json.maxLevels) o o') :
    Fault.SameOutcome id (readEntity t.decoder t.check s) (readEntity t.decoder t.check s') := by
  have hSame (a : t.Carrier) : t.decoder.ofText s = .ok a ↔ t.decoder.ofText s' = .ok a := by
    rw [Decoder.ofText_eq_ok_iff, Decoder.ofText_eq_ok_iff, hText, hText']
    exact and_congr_left' (t.decoder_fits.text_eq_ok_iff h a)
  exact Fault.sameOutcome_of_decoded (fun _ => rfl) (fun a ha => (hSame a).mp ha)
    fun a ha => ⟨a, (hSame a).mpr ha⟩

/-- A range with its members in another order, under an alias, with the mark of its datatype, with a
member that is not known and with null for what is absent. -/
theorem EntityType.read_of_changes_of_range :
    let text := "\x7b\"valueType\":\"string\",\"min\":\"a\",\"qualifiers\":[]\x7d"
    let text' :=
      "\x7b\"min\":\"a\",\"valueType\":\"xs:string\",\"x\":true,\"qualifier\":[],\"max\":null\x7d"
    readEntity Range.scheme.decoder Range.check text =
        .ok { valueType := .string, min := some "a" } ∧
      Fault.SameOutcome id (readEntity Range.scheme.decoder Range.check text)
        (readEntity Range.scheme.decoder Range.check text') := by
  have hText : Outline.ofText
      "\x7b\"valueType\":\"string\",\"min\":\"a\",\"qualifiers\":[]\x7d" =
      (.object [(some "valueType", .string (some "string")), (some "min", .string (some "a")),
        (some "qualifiers", .array [] true)] true, true) := by
    cbv
  have hText' : Outline.ofText
      "\x7b\"min\":\"a\",\"valueType\":\"xs:string\",\"x\":true,\"qualifier\":[],\"max\":null\x7d" =
      (.object [(some "min", .string (some "a")), (some "valueType", .string (some "xs:string")),
        (some "x", .bool true), (some "qualifier", .array [] true), (some "max", .null)] true,
        true) := by
    cbv
  have hDecode : Range.scheme.decoder.ofText
      "\x7b\"valueType\":\"string\",\"min\":\"a\",\"qualifiers\":[]\x7d" =
      .ok { valueType := .string, min := some "a" } := by
    rw [Decoder.ofText_eq_ok_iff, hText]
    exact ⟨rfl, rfl⟩
  have hRead : readEntity Range.scheme.decoder Range.check
      "\x7b\"valueType\":\"string\",\"min\":\"a\",\"qualifiers\":[]\x7d" =
      .ok { valueType := .string, min := some "a" } := by
    rw [readEntity, hDecode]
    rfl
  have hQualifiers : Slot.qualifiers ∈ RecordKind.range.slots :=
    List.mem_append_right _ List.mem_cons_self
  have hMax : ⟨["max"], .nullable .plain⟩ ∈ RecordKind.range.slots :=
    List.mem_cons_of_mem _ (List.mem_cons_of_mem _ List.mem_cons_self)
  have hUnknown : "x" ∉ RecordKind.range.slots.flatMap Slot.names := by decide
  have hNew (tags : List Outline) :
      ¬ (Pattern.record .range).Knows (Outline.value? 126) tags "x" := by
    rintro ⟨hAsks, hs, hName⟩
    cases hAsks
    exact hUnknown (List.mem_flatMap.mpr ⟨_, hs, hName⟩)
  refine ⟨hRead, EntityType.read_of_changes .range hText hText' ?_⟩
  refine .trans _ _ _ (.rel _ _ (.inside [] _ true (.record .range) List.mem_cons_self
    List.mem_cons_self (.marked _ .string))) ?_
  refine .trans _ _ _ (.rel _ _ (@Outline.Change.renamed _ _ _ _ _ "qualifier" _
    [(some "valueType", .string (some "xs:string")), (some "min", .string (some "a"))] [] true
    (.record .range) hQualifiers (by decide) (by decide))) ?_
  refine .trans _ _ _ (.rel _ _ (@Outline.Change.null _ _ _ _ "max"
    [(some "valueType", .string (some "xs:string")), (some "min", .string (some "a")),
      (some "qualifier", .array [] true)] [] true (.record .range) hMax (by decide) rfl
    (by decide))) ?_
  refine .trans _ _ _ (.rel _ _ (@Outline.Change.unknown _ _ "x" (.bool true)
    [(some "valueType", .string (some "xs:string")), (some "min", .string (some "a"))]
    [(some "qualifier", .array [] true), (some "max", .null)] true rfl (hNew _) rfl)) ?_
  exact .rel _ _ (.permuted _ true rfl (.swap _ _ _))

end AssetShell
