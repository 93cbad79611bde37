import AssetShell.Proofs.Interchange.FormatCodec
import AssetShell.Proofs.Interchange.Simulation

/-!
# Decoders that fit a pattern

A decoder fits a pattern if it asks no more than the pattern: whatever it gives for a value, it
gives for each value that simulates it. What holds nothing is decoded from the value alone; lists
and what may be null fit if their contents do. A record fits its slots if its components fit its own
slots and its parts fit the slots of its blocks, since every name is looked at for one purpose only.
-/

namespace AssetShell

/-! ## Decoders -/

namespace Decoder

variable {α β : Type} {d : Decoder α} {p : Pattern}

structure Fits (d : Decoder α) (p : Pattern) : Prop where
  value : ∀ R, Json.Simulation R → ∀ held v w a, R p v w → d.value held v = .ok a →
    d.value held w = .ok a
  text : ∀ R, Outline.Simulation R → ∀ n o o' a, R p n o o' → d.text n o = .ok a →
    d.text n o' = .ok a

theorem fits_plain (h : ∀ held v a, d.value held v = .ok a → v.Plain) : d.Fits .plain where
  value R hR held v w a hRel ha := by rw [hR.plain v w hRel (h held v a ha), ha]
  text R hR n o o' a hRel ha := by rw [hR.plain n o o' hRel, ha]

@[simp] theorem string_fits : string.Fits .plain := by
  refine fits_plain fun held v a ha => ?_
  cases v with
  | string s => exact .leaf rfl
  | _ => cases ha

@[simp] theorem bool_fits : bool.Fits .plain := by
  refine fits_plain fun held v a ha => ?_
  cases v with
  | bool b => exact .leaf rfl
  | _ => cases ha

theorem parts_of_isNull_or_isEmptyObject {held : Held} {v : Json}
    (h : (isNull v || (held = .kept && isEmptyObject v)) = true) : v.parts = [] := by
  cases v with
  | array items => simp [isNull, isEmptyObject] at h
  | object ms =>
    cases ms with
    | nil => rfl
    | cons m r => simp [isNull, isEmptyObject] at h
  | _ => rfl

@[simp] theorem named_fits {name : α → String} {all : List α} :
    (Decoder.named name all).Fits .plain := by
  refine fits_plain fun held v a ha => ?_
  simp only [named] at ha
  split at ha
  · exact .leaf rfl
  · obtain ⟨_, -, ha⟩ := exists_of_bind_eq_ok ha
    split at ha
    · rename_i hEmpty
      exact .word (parts_of_isNull_or_isEmptyObject hEmpty)
    · cases ha
  · cases ha

theorem datatype_eq_ok_iff {x : Decoded String} {a : Datatype} :
    (x.bind fun tag => match Datatype.ofTag? tag with
      | some d => .ok d
      | none => .error (.unknownDatatype tag)) = .ok a ↔
    ∃ tag, x = .ok tag ∧ Datatype.ofTag? tag = some a := by
  cases x with
  | error f => exact ⟨nofun, nofun⟩
  | ok tag =>
    simp only [Except.bind, Except.ok.injEq, exists_eq_left']
    cases Datatype.ofTag? tag <;> simp

@[simp] theorem datatype_fits : datatype.Fits .datatype where
  value R hR held v w a hRel ha := by
    obtain ⟨tag, hString, hTag⟩ := datatype_eq_ok_iff.mp ha
    cases v with
    | string s =>
      cases hString
      obtain ⟨other, rfl, hOther⟩ := hR.datatype tag a w hRel hTag
      exact datatype_eq_ok_iff.mpr ⟨other, rfl, hOther⟩
    | _ => cases hString
  text R hR n o o' a hRel ha := by
    obtain ⟨tag, hString, hTag⟩ := datatype_eq_ok_iff.mp ha
    cases o with
    | string s =>
      cases s with
      | none => cases hString
      | some s =>
        cases hString
        obtain ⟨other, rfl, hOther⟩ := hR.datatype n tag a o' hRel hTag
        exact datatype_eq_ok_iff.mpr ⟨other, rfl, hOther⟩
    | _ => cases hString

theorem Fits.refine (h : d.Fits p) (f : α → Decoded β) : (d.refine f).Fits p where
  value R hR held v w b hRel hb := by
    obtain ⟨a, ha, hf⟩ := exists_of_bind_eq_ok hb
    change (d.value held w).bind f = .ok b
    rw [h.value R hR held v w a hRel ha]
    exact hf
  text R hR n o o' b hRel hb := by
    obtain ⟨a, ha, hf⟩ := exists_of_bind_eq_ok hb
    change (d.text n o').bind f = .ok b
    rw [h.text R hR n o o' a hRel ha]
    exact hf

theorem optional_value {held : Held} {v : Json} (h : v ≠ .null) :
    d.optional.value held v = (d.value held v).map some := by
  cases v with
  | null => exact absurd rfl h
  | _ => rfl

theorem optional_text {n : Nat} {o : Outline} (h : o ≠ .null) :
    d.optional.text n o = (d.text n o).map some := by
  cases o with
  | null => exact absurd rfl h
  | _ => rfl

theorem Fits.optional (h : d.Fits p) : d.optional.Fits (.nullable p) where
  value R hR held v w a hRel ha := by
    by_cases hNull : v = .null
    · subst hNull
      rw [hR.null p w hRel, ha]
    · obtain ⟨hNull', hSame⟩ := hR.present p v w hRel hNull
      rw [optional_value hNull] at ha
      obtain ⟨b, hb, rfl⟩ := exists_of_map_eq_ok ha
      rw [optional_value hNull', h.value R hR held v w b hSame hb]
      rfl
  text R hR n o o' a hRel ha := by
    by_cases hNull : o = .null
    · subst hNull
      rw [hR.null p n o' hRel, ha]
    · obtain ⟨hNull', hSame⟩ := hR.present p n o o' hRel hNull
      rw [optional_text hNull] at ha
      obtain ⟨b, hb, rfl⟩ := exists_of_map_eq_ok ha
      rw [optional_text hNull', h.text R hR n o o' b hSame hb]
      rfl

theorem forall₂_of_related {ν : Type} {R : ν → ν → Prop} {P : ν → α → Prop} {vs ws : List ν}
    {as : List α} (hRel : List.Forall₂ R vs ws) (h : List.Forall₂ P vs as)
    (hStep : ∀ v w a, R v w → P v a → P w a) : List.Forall₂ P ws as := by
  induction hRel generalizing as with
  | nil => exact h
  | cons hFirst _ ih =>
    obtain _ | ⟨ha, hRest⟩ := h
    exact .cons (hStep _ _ _ hFirst ha) (ih hRest)

theorem Fits.list (h : d.Fits p) : d.list.Fits (.list p) where
  value R hR held v w as hRel has := by
    obtain ⟨vs, rfl, hItems⟩ := Codec.list_value_eq_ok_iff.mp has
    obtain ⟨ws, rfl, hSame⟩ := hR.list p vs w hRel
    exact Codec.list_value_eq_ok_iff.mpr
      ⟨ws, rfl, forall₂_of_related hSame hItems (h.value R hR held)⟩
  text R hR n o o' as hRel has := by
    obtain ⟨os, rfl, hLevels, hItems⟩ := Codec.list_text_eq_ok_iff.mp has
    obtain ⟨os', rfl, hSame⟩ := hR.list p n os true o' hRel
    exact Codec.list_text_eq_ok_iff.mpr
      ⟨os', rfl, hLevels, forall₂_of_related hSame hItems (h.text R hR (n - 1))⟩

/-- Null is decoded as `a`. -/
structure Nulls (d : Decoder α) (a : α) : Prop where
  value : ∀ held, d.value held .null = .ok a
  text : ∀ n, d.text n .null = .ok a

theorem optional_nulls : d.optional.Nulls none := ⟨fun _ => rfl, fun _ => rfl⟩

end Decoder

/-! ## Components -/

variable {σ β : Type}

namespace Component

/-- What stands under the names of a nullable slot may be null, which leaves the component blank. -/
structure Fits (c : Component σ) (blank : σ) (s : Slot) : Prop where
  names : c.names = s.names
  decoder : c.decoder.Fits s.pattern
  null : s.pattern.isNullable = true → c.mandatory = false ∧ c.decoder.Nulls (c.get blank)

variable {name other : String} {c : Codec β} {p : Pattern} {blank : σ}

@[simp] theorem required_fits {get : σ → β} {set : σ → β → σ} (h : c.decoder.Fits p)
    (hp : ∀ q, p ≠ .nullable q) : (required name c get set).Fits blank ⟨[name], p⟩ where
  names := rfl
  decoder := h
  null hNull := by
    obtain ⟨q, rfl⟩ := Pattern.eq_nullable_of_isNullable hNull
    exact absurd rfl (hp q)

@[simp] theorem defaulted_fits {get : σ → β} {set : σ → β → σ} (h : c.decoder.Fits p)
    (hp : ∀ q, p ≠ .nullable q) : (defaulted name c get set).Fits blank ⟨[name], p⟩ where
  names := rfl
  decoder := h
  null hNull := by
    obtain ⟨q, rfl⟩ := Pattern.eq_nullable_of_isNullable hNull
    exact absurd rfl (hp q)

@[simp] theorem optional_fits {get : σ → Option β} {set : σ → Option β → σ} (h : c.decoder.Fits p)
    (hBlank : get blank = none) :
    (optional name c get set).Fits blank ⟨[name], .nullable p⟩ where
  names := rfl
  decoder := h.optional
  null _ := by
    refine ⟨rfl, ?_⟩
    change c.decoder.optional.Nulls (get blank)
    rw [hBlank]
    exact Decoder.optional_nulls

@[simp] theorem list_fits {get : σ → List β} {set : σ → List β → σ} (h : c.decoder.Fits p) :
    (list name c get set).Fits blank ⟨[name], .list p⟩ where
  names := rfl
  decoder := h.list
  null := nofun

@[simp] theorem withAlias_list_fits {get : σ → List β} {set : σ → List β → σ}
    (h : c.decoder.Fits p) :
    ((list name c get set).withAlias other).Fits blank ⟨[name, other], .list p⟩ where
  names := rfl
  decoder := h.list
  null := nofun

end Component

/-! ## Objects -/

/-- What the members of an object give, they give after what was asked for has been carried over. -/
structure ObjectCodec.Fits {α : Type} (o : ObjectCodec α) (slots : List Slot) : Prop where
  known : o.known = slots.flatMap Slot.names
  members : ∀ R, Json.Simulation R → ∀ held es fs a,
    (∀ s ∈ slots, Carried some R s.pattern (valuesUnder s.names es) (valuesUnder s.names fs)) →
    o.scheme.ofMembers held es = .ok a → o.scheme.ofMembers held fs = .ok a

theorem valuesUnder_filter {ν : Type} {names : List String} {q : String → Bool}
    (h : ∀ name ∈ names, q name = true) (ms : List (String × ν)) :
    valuesUnder names (ms.filter fun m => q m.1) = valuesUnder names ms := by
  rw [valuesUnder, valuesUnder, List.filter_filter]
  refine congrArg (List.map Prod.snd) (List.filter_congr fun m _ => ?_)
  by_cases hName : m.1 ∈ names
  · simp [hName, h m.1 hName]
  · simp [hName]

namespace Format

variable {ν : Type} {F : Format σ} {own : List Slot} {blocks : List (List Slot)}

structure Fits (F : Format σ) (own : List Slot) (blocks : List (List Slot)) : Prop where
  components : List.Forall₂ (fun c s => c.Fits F.blank s) F.components own
  parts : List.Forall₂ (fun p slots => p.object.Fits slots) F.parts blocks

theorem valuesUnder_names (c : Component σ) (ms : List (String × ν)) :
    valuesUnder c.names ms = (under c ms).map Prod.snd := by
  rw [valuesUnder, under_eq_filter]

theorem says_iff {R : Reader ν} {c : Component σ} {ms : List (String × ν)} {blank a : σ} :
    Says R ms blank a c ↔
      (valuesUnder c.names ms = [] ∧ c.mandatory = false ∧ c.get a = c.get blank) ∨
        ∃ v, valuesUnder c.names ms = [v] ∧ R.read c.decoder v = .ok (c.get a) := by
  rw [Says, valuesUnder_names, List.map_eq_nil_iff]
  refine or_congr_right ⟨?_, ?_⟩
  · rintro ⟨m, hSingle, hRead⟩
    exact ⟨m.2, by rw [hSingle, List.map_singleton], hRead⟩
  · rintro ⟨v, hSingle, hRead⟩
    obtain ⟨m, hm, rfl⟩ := List.map_eq_singleton_iff.mp hSingle
    exact ⟨m, hm, hRead⟩

/-- What a reader must carry over from a value to a related one. -/
structure Respects (R : Reader ν) (view : ν → Option Json) (S : Pattern → ν → ν → Prop) :
    Prop where
  read : ∀ {β : Type} {d : Decoder β} {p : Pattern}, d.Fits p → ∀ v w b, S p v w →
    R.read d v = .ok b → R.read d w = .ok b
  null : ∀ {β : Type} {d : Decoder β} {b : β}, d.Nulls b → ∀ v, view v = some .null →
    R.read d v = .ok b

theorem respects_value {S : Pattern → Json → Json → Prop} (hS : Json.Simulation S) (held : Held) :
    Respects (.value held) some S where
  read h v w b := h.value S hS held v w b
  null h v hv := by
    obtain rfl := Option.some.inj hv
    exact h.value held

theorem respects_text {S : Pattern → Nat → Outline → Outline → Prop} (hS : Outline.Simulation S)
    (s : Scheme σ) (n : Nat) : Respects (.text s n) (Outline.value? n) fun p => S p n where
  read h o o' b := h.text S hS n o o' b
  null h o ho := by
    obtain rfl := Outline.eq_null_of_value? ho
    exact h.text n

section Carrying

variable {R : Reader ν} {view : ν → Option Json} {S : Pattern → ν → ν → Prop}
  (hR : Respects R view S)
include hR

theorem says_of_carried {c : Component σ} {s : Slot} {blank a : σ} (hc : c.Fits blank s)
    {ms ns : List (String × ν)}
    (hCarried : Carried view S s.pattern (valuesUnder s.names ms) (valuesUnder s.names ns))
    (h : Says R ms blank a c) : Says R ns blank a c := by
  rw [← hc.names, valuesUnder_names, valuesUnder_names] at hCarried
  rcases h with ⟨hEmpty, hMandatory, hBlank⟩ | ⟨m, hSingle, hRead⟩
  · rw [hEmpty, List.map_nil] at hCarried
    generalize hws : (under c ns).map Prod.snd = ws at hCarried
    cases hCarried with
    | absent => exact .inl ⟨List.map_eq_nil_iff.mp hws, hMandatory, hBlank⟩
    | nullAdded hp hw =>
      obtain ⟨m, hm, rfl⟩ := List.map_eq_singleton_iff.mp hws
      exact .inr ⟨m, hm, hBlank ▸ hR.null (hc.null hp).2 m.2 hw⟩
  · rw [hSingle, List.map_singleton] at hCarried
    generalize hws : (under c ns).map Prod.snd = ws at hCarried
    cases hCarried with
    | single hRel =>
      obtain ⟨m', hm', rfl⟩ := List.map_eq_singleton_iff.mp hws
      exact .inr ⟨m', hm', hR.read hc.decoder m.2 m'.2 _ hRel hRead⟩
    | nullRemoved hp hv =>
      obtain ⟨hMandatory, hNulls⟩ := hc.null hp
      have hBlank := Except.ok.inj (hRead.symm.trans (hR.null hNulls m.2 hv))
      exact .inl ⟨List.map_eq_nil_iff.mp hws, hMandatory, hBlank⟩

theorem sequence_of_positions {cs : List (Component σ)} {slots : List Slot} {blank : σ}
    (hcs : List.Forall₂ (fun c s => c.Fits blank s) cs slots) {vs ws : List ν}
    (hPositions : Positions S slots vs ws) {s t : σ}
    (h : Scheme.sequence (fun f v => R.read f.decoder v) (cs.map Component.field) vs s = .ok t) :
    Scheme.sequence (fun f v => R.read f.decoder v) (cs.map Component.field) ws s = .ok t := by
  induction hPositions generalizing cs s with
  | done => exact h
  | next hRel _ ih =>
    obtain _ | ⟨hc, hRest⟩ := hcs
    obtain ⟨b, hb, h⟩ := sequence_cons_eq_ok_iff.mp h
    exact sequence_cons_eq_ok_iff.mpr ⟨b, hR.read hc.decoder _ _ b hRel hb, ih hRest h⟩
  | surplus =>
    obtain _ | _ := hcs
    cases h

end Carrying

theorem flatMap_eq_of_forall₂ {ι κ : Type*} {f : ι → List String} {g : κ → List String}
    {is : List ι} {ks : List κ} (h : List.Forall₂ (fun i k => f i = g k) is ks) :
    is.flatMap f = ks.flatMap g := by
  induction h with
  | nil => rfl
  | cons hFirst _ ih => rw [List.flatMap_cons, List.flatMap_cons, hFirst, ih]

theorem Fits.ownNames (hF : F.Fits own blocks) : F.ownNames = own.flatMap Slot.names :=
  flatMap_eq_of_forall₂ (hF.components.imp fun _ _ hc => hc.names)

theorem Fits.known (hF : F.Fits own blocks) :
    F.known = (own ++ blocks.flatten).flatMap Slot.names := by
  have hParts : (F.parts.flatMap fun p => p.object.known) =
      blocks.flatMap fun slots => slots.flatMap Slot.names :=
    flatMap_eq_of_forall₂ (hF.parts.imp fun _ _ hp => hp.known)
  rw [Format.known, hF.ownNames, hParts, List.flatMap_append, ← List.flatMap_id (L := blocks),
    List.flatMap_assoc]
  rfl

theorem Fits.component?_isNone (hF : F.Fits own blocks) (h : F.Lawful) {s : Slot}
    (hs : s ∈ blocks.flatten) : ∀ name ∈ s.names, (F.component? name).isNone = true := by
  intro name hName
  obtain ⟨slots, hSlots, hs⟩ := List.mem_flatten.mp hs
  obtain ⟨p, hp, hFits⟩ := exists_of_forall₂ hF.parts hSlots
  have hKnown : name ∈ p.object.known := hFits.known ▸ List.mem_flatMap.mpr ⟨s, hs, hName⟩
  rw [component?_eq_none_iff.mpr (h.disjoint_of_part hp hKnown), Option.isNone_none]

theorem Fits.valuesUnder_foreign (hF : F.Fits own blocks) (h : F.Lawful) {s : Slot}
    (hs : s ∈ blocks.flatten) (ms : List (String × ν)) :
    valuesUnder s.names (F.foreign ms) = valuesUnder s.names ms :=
  valuesUnder_filter (q := fun name => (F.component? name).isNone) (hF.component?_isNone h hs) ms

/-- What a record says, it says after its own slots and what is set aside were carried over. -/
theorem Fits.yields_of_carried (hF : F.Fits own blocks) {R : Reader ν} {view : ν → Option Json}
    {S : Pattern → ν → ν → Prop} (hR : Respects R view S) {T : Pattern → Json → Json → Prop}
    (hT : Json.Simulation T) {ms ns : List (String × ν)} {es fs : List (String × Json)} {a : σ}
    (hOwn : ∀ s ∈ own,
      Carried view S s.pattern (valuesUnder s.names ms) (valuesUnder s.names ns))
    (hAside : List.Forall₂ (fun m e => e.1 = m.1 ∧ R.keep m.2 = .ok e.2) (F.foreign ns) fs)
    (hBlocks : ∀ s ∈ blocks.flatten,
      Carried some T s.pattern (valuesUnder s.names es) (valuesUnder s.names fs))
    (ha : F.Yields R ms es a) : F.Yields R ns fs a where
  component c hc := by
    obtain ⟨s, hs, hFits⟩ := exists_of_forall₂ hF.components.flip hc
    exact says_of_carried hR hFits (hOwn s hs) (ha.component c hc)
  aside := hAside
  part p hp := by
    obtain ⟨slots, hSlots, hFits⟩ := exists_of_forall₂ hF.parts.flip hp
    refine hFits.members T hT p.held es fs _ (fun s hs => ?_) (ha.part p hp)
    exact hBlocks s (List.mem_flatten.mpr ⟨slots, hSlots, hs⟩)

theorem Fits.ofMembers_of_carried (hF : F.Fits own blocks) (h : F.Lawful)
    {S : Pattern → Json → Json → Prop} (hS : Json.Simulation S) {held : Held}
    {es fs : List (String × Json)} {a : σ}
    (hCarried : ∀ s ∈ own ++ blocks.flatten,
      Carried some S s.pattern (valuesUnder s.names es) (valuesUnder s.names fs))
    (ha : F.scheme.ofMembers held es = .ok a) : F.scheme.ofMembers held fs = .ok a := by
  obtain ⟨aside, hYields⟩ := h.run_eq_ok_iff.mp (F.ofMembers_eq held es ▸ ha)
  obtain rfl := eq_of_forall₂_keep held hYields.aside
  rw [ofMembers_eq]
  refine h.run_eq_ok_iff.mpr ⟨F.foreign fs, hF.yields_of_carried (respects_value hS held) hS
    (fun s hs => hCarried s (List.mem_append_left _ hs))
    (List.forall₂_same.mpr fun _ _ => ⟨rfl, rfl⟩) (fun s hs => ?_) hYields⟩
  rw [hF.valuesUnder_foreign h hs, hF.valuesUnder_foreign h hs]
  exact hCarried s (List.mem_append_right _ hs)

theorem Fits.object_fits (hF : F.Fits own blocks) (h : F.Lawful)
    {members : σ → List (String × Json)} {references : σ → List Reference} :
    (F.object members references).Fits (own ++ blocks.flatten) where
  known := hF.known
  members _ hS _ _ _ _ hCarried ha := hF.ofMembers_of_carried h hS hCarried ha

/-! ## What is set aside from a text -/

theorem under_map_named (names : List String) (ms : List (String × Outline)) :
    Outline.under names (ms.map named) = valuesUnder names ms := by
  rw [Outline.under, List.filter_map, List.map_map]
  rfl

theorem exists_named_of_hasMember {n : Nat} {members : List (Option String × Outline)}
    {es : List (String × Json)} (h : List.Forall₂ (Outline.HasMember n) members es) :
    ∃ ms : List (String × Outline), members = ms.map named := by
  refine exists_eq_map_named fun m hm => ?_
  obtain ⟨e, -, hName, -⟩ := exists_of_forall₂ h.flip hm
  exact Option.isSome_iff_exists.mpr ⟨_, hName⟩

theorem carried_aside {S : Pattern → Nat → Outline → Outline → Prop} {n : Nat} {p : Pattern}
    {names : List String} {q : String → Bool} (hq : ∀ name ∈ names, q name = true)
    {ms ns : List (String × Outline)} {es fs : List (String × Json)}
    (hms : List.Forall₂ (fun m e => e.1 = m.1 ∧ m.2.value? n = some e.2)
      (ms.filter fun m => q m.1) es)
    (hns : List.Forall₂ (fun m e => e.1 = m.1 ∧ m.2.value? n = some e.2)
      (ns.filter fun m => q m.1) fs)
    (h : Carried (Outline.value? n) (fun p => S p n) p (valuesUnder names ms)
      (valuesUnder names ns)) :
    Carried some (Outline.OnValues S) p (valuesUnder names es) (valuesUnder names fs) := by
  have hValues {ms : List (String × Outline)} {es : List (String × Json)}
      (hms : List.Forall₂ (fun m e => e.1 = m.1 ∧ m.2.value? n = some e.2)
        (ms.filter fun m => q m.1) es) :
      List.Forall₂ (fun o v => o.value? n = some v) (valuesUnder names ms)
        (valuesUnder names es) := by
    have hMembers : List.Forall₂ (Outline.HasMember n) ((ms.filter fun m => q m.1).map named) es :=
      List.forall₂_map_left_iff.mpr
        (hms.imp fun m e hm => ⟨congrArg some hm.1.symm, hm.2⟩)
    have hUnder := Outline.under_of_hasMember hMembers names
    rwa [under_map_named, valuesUnder_filter hq] at hUnder
  exact Outline.carried_values h (hValues hms) (hValues hns)

theorem exists_aside {P : Outline → Json → Prop} {ns : List (String × Outline)}
    (h : ∀ m ∈ ns, ∃ v, P m.2 v) :
    ∃ fs : List (String × Json), List.Forall₂ (fun m e => e.1 = m.1 ∧ P m.2 e.2) ns fs := by
  induction ns with
  | nil => exact ⟨[], .nil⟩
  | cons m r ih =>
    rw [List.forall_mem_cons] at h
    obtain ⟨⟨v, hv⟩, hRest⟩ := h
    obtain ⟨fs, hfs⟩ := ih hRest
    exact ⟨(m.1, v) :: fs, .cons ⟨rfl, hv⟩ hfs⟩

theorem exists_named_of_kept {slots : List Slot} {n : Nat} {ms : List (String × Outline)}
    {members : List (Option String × Outline)} (h : Outline.Kept slots n (ms.map named) members) :
    ∃ ns : List (String × Outline), members = ns.map named := by
  refine exists_eq_map_named fun m hm => ?_
  rcases h m hm with ⟨hNamed, -⟩ | ⟨m', hm', hStands⟩
  · exact hNamed
  · obtain ⟨m', -, rfl⟩ := List.mem_map.mp hm'
    exact hStands.named rfl

theorem exists_keepText_iff {n : Nat} {o : Outline} :
    (∃ v, F.scheme.keepText n o = .ok v) ↔
      if F.parts.isEmpty then o.isWhole = true else (o.value? n).isSome = true := by
  have hBlocks : F.scheme.blocks.isEmpty = F.parts.isEmpty := by simp [scheme]
  rw [Scheme.keepText, hBlocks]
  split
  · split <;> simp_all
  · cases o.value? n <;> simp

/-- What is set aside can be set aside after a change, too. -/
theorem exists_keepText_of_kept {n : Nat} {slots : List Slot} {ms ns : List (String × Outline)}
    (hOwn : ∀ s ∈ own, s ∈ slots) (hNames : F.ownNames = own.flatMap Slot.names)
    (hKept : Outline.Kept slots n (ms.map named) (ns.map named))
    (h : ∀ m ∈ F.foreign ms, ∃ v, F.scheme.keepText n m.2 = .ok v) :
    ∀ m ∈ F.foreign ns, ∃ v, F.scheme.keepText n m.2 = .ok v := by
  intro m hm
  obtain ⟨hm, hForeign⟩ := List.mem_filter.mp hm
  rw [Option.isNone_iff_eq_none, component?_eq_none_iff, hNames] at hForeign
  rcases hKept _ (List.mem_map_of_mem hm) with ⟨-, hValue⟩ | ⟨_, hBefore, hStands⟩
  · obtain ⟨v, hv⟩ := Option.isSome_iff_exists.mp hValue
    have hWhole : m.2.isWhole = true := Outline.isWhole_of_value? hv
    exact exists_keepText_iff.mpr (by split <;> assumption)
  · obtain ⟨m', hm', rfl⟩ := List.mem_map.mp hBefore
    -- Both members stand under the same slots, so the old one was set aside as well.
    have hForeign' : m' ∈ F.foreign ms := by
      refine List.mem_filter.mpr ⟨hm', ?_⟩
      rw [Option.isNone_iff_eq_none, component?_eq_none_iff, hNames]
      intro hName
      obtain ⟨s, hs, hName⟩ := List.mem_flatMap.mp hName
      have hSame : decide (m.1 ∈ s.names) = decide (m'.1 ∈ s.names) :=
        hStands.slots s (hOwn s hs)
      rw [decide_eq_true hName] at hSame
      exact hForeign (List.mem_flatMap.mpr ⟨s, hs, of_decide_eq_true hSame⟩)
    have hKeep := exists_keepText_iff.mp (h m' hForeign')
    refine exists_keepText_iff.mpr ?_
    split at hKeep
    · rename_i hParts
      rw [if_pos hParts]
      exact hStands.whole hKeep
    · rename_i hParts
      rw [if_neg hParts]
      exact hStands.valued hKeep

section Decoding

variable {k : RecordKind} (hF : F.Fits k.ownSlots k.blocks) (h : F.Lawful)
include hF

theorem Fits.blocks_eq_nil (hParts : F.parts = []) : k.blocks = [] := by
  have hBlocks := hF.parts
  rw [hParts] at hBlocks
  exact List.forall₂_nil_left_iff.mp hBlocks

theorem Fits.slots_of_no_parts (hParts : F.parts = []) : k.slots = k.ownSlots := by
  rw [RecordKind.slots, hF.blocks_eq_nil hParts, List.flatten_nil, List.append_nil]

include h

theorem Fits.yields_text {S : Pattern → Nat → Outline → Outline → Prop}
    (hS : Outline.Simulation S) {n : Nat} {ms ns : List (String × Outline)}
    {es : List (String × Json)} {a : σ} (hKept : Outline.Kept k.slots n (ms.map named) (ns.map named))
    (hCarried : ∀ s ∈ k.slots, Carried (Outline.value? n) (fun p => S p n) s.pattern
      (valuesUnder s.names ms) (valuesUnder s.names ns))
    (ha : F.Yields (.text F.scheme n) ms es a) : ∃ fs, F.Yields (.text F.scheme n) ns fs a := by
  have hKeep : ∀ m ∈ F.foreign ns, ∃ v, F.scheme.keepText n m.2 = .ok v :=
    exists_keepText_of_kept (fun s hs => List.mem_append_left _ hs) hF.ownNames hKept fun m hm => by
      obtain ⟨e, -, -, he⟩ := exists_of_forall₂ ha.aside.flip hm
      exact ⟨e.2, he⟩
  obtain ⟨fs, hAside⟩ := exists_aside (P := fun o v => F.scheme.keepText n o = .ok v) hKeep
  refine ⟨fs, hF.yields_of_carried (respects_text hS F.scheme n) hS.onValues
    (fun s hs => hCarried s (List.mem_append_left _ hs)) hAside (fun s hs => ?_) ha⟩
  have hParts : F.parts ≠ [] := by
    intro hNone
    rw [hF.blocks_eq_nil hNone] at hs
    exact absurd hs List.not_mem_nil
  have hValued {ms : List (String × Outline)} {es : List (String × Json)}
      (hms : List.Forall₂ (fun m e => e.1 = m.1 ∧ F.scheme.keepText n m.2 = .ok e.2) ms es) :
      List.Forall₂ (fun m e => e.1 = m.1 ∧ m.2.value? n = some e.2) ms es :=
    hms.imp fun m e hm => ⟨hm.1, value?_of_keepText hParts hm.2⟩
  exact carried_aside (hF.component?_isNone h hs) (hValued ha.aside) (hValued hAside)
    (hCarried s (List.mem_append_right _ hs))

theorem Fits.decoder_fits : F.scheme.decoder.Fits (.record k) where
  value R hR held v w a hRel ha := by
    cases v with
    | object ms =>
      obtain ⟨ns, rfl, hCarried⟩ := hR.object _ ms w k.slots hRel (.record k)
      exact hF.ofMembers_of_carried h hR hCarried ha
    | array items =>
      obtain ⟨ws, rfl, hPositions⟩ := hR.positions k items w hRel
      simp only [Scheme.decoder, Scheme.ofValue] at ha ⊢
      split at ha
      · rename_i hBlocks
        -- A record with blocks is never given as an array, so the slots are its own.
        have hParts : F.parts = [] := by simpa [scheme] using hBlocks
        rw [if_pos hBlocks]
        rw [hF.slots_of_no_parts hParts] at hPositions
        exact sequence_of_positions (respects_value hR held) hF.components hPositions ha
      · cases ha
    | _ => cases ha
  text R hR n o o' a hRel ha := by
    cases o with
    | object members closed =>
      obtain ⟨rfl, hLevels, ms, es, rfl, hYields⟩ := h.ofText_object_eq_ok_iff.mp ha
      obtain ⟨members, rfl, hKept, hCarried⟩ :=
        hR.object _ n (ms.map named) true o' k.slots hRel (.record k)
      obtain ⟨ns, rfl⟩ := exists_named_of_kept hKept
      simp only [under_map_named] at hCarried
      obtain ⟨fs, hAfter⟩ := hF.yields_text h hR hKept hCarried hYields
      exact h.ofText_object_eq_ok_iff.mpr ⟨rfl, hLevels, ns, fs, rfl, hAfter⟩
    | array items closed =>
      obtain ⟨rfl, hLevels, hParts, hItems⟩ := ofText_array_eq_ok_iff.mp ha
      obtain ⟨os, rfl, hPositions⟩ := hR.positions k n items true o' hRel
      rw [hF.slots_of_no_parts hParts] at hPositions
      exact ofText_array_eq_ok_iff.mpr ⟨rfl, hLevels, hParts,
        sequence_of_positions (respects_text hR F.scheme (n - 1)) hF.components hPositions hItems⟩
    | _ => cases ha

end Decoding

end Format

end AssetShell
