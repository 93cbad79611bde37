import AssetShell.Proofs.Interchange.TextDecoding

/-!
# References on the wire

A reference comes as an object with its kind and its keys, in any order and among any other members,
or as an array of the two. The keys need not be there. A value is read as a draft of kind and keys if
and only if it has this form; whether the draft is a reference is then left to the chain alone.
-/

namespace AssetShell

variable {held : Held} {v : Json}

/-! ## Names -/

/-- A name is spelled as a string, or as the one member of an object with null as its value, which a
kept value may have an empty object in place of. -/
inductive Json.Spells (held : Held) (name : String) : Json → Prop
  | string : Spells held name (.string name)
  | member {v : Json} (h : v = .null ∨ held = .kept ∧ v = .object []) :
    Spells held name (.object [(name, v)])

namespace Decoder

variable {α : Type} {name : α → String} {all : List α} {a : α}

theorem pick_eq_ok_iff (hAll : ∀ a, a ∈ all) (hName : ∀ a b, name a = name b → a = b)
    {found : String} : pick name all found = .ok a ↔ name a = found := by
  constructor
  · intro h
    rw [pick] at h
    split at h
    · rename_i b hFind
      cases h
      exact of_decide_eq_true (List.find?_some hFind :)
    · cases h
  · rintro rfl
    exact Codec.pick_eq_ok hAll hName a

theorem stands_for_null_iff :
    (isNull v || (held = .kept && isEmptyObject v)) = true ↔
      v = .null ∨ held = .kept ∧ v = .object [] := by
  cases v with
  | object ms => cases ms <;> simp [isNull, isEmptyObject]
  | _ => simp [isNull, isEmptyObject]

theorem named_value_eq_ok_iff (hAll : ∀ a, a ∈ all) (hName : ∀ a b, name a = name b → a = b) :
    (named name all).value held v = .ok a ↔ v.Spells held (name a) := by
  constructor
  · intro h
    simp only [named] at h
    split at h
    · obtain rfl := (pick_eq_ok_iff hAll hName).mp h
      exact .string
    · obtain ⟨b, hPick, h⟩ := exists_of_bind_eq_ok h
      split at h
      · rename_i hNull
        cases h
        obtain rfl := (pick_eq_ok_iff hAll hName).mp hPick
        exact .member (stands_for_null_iff.mp hNull)
      · cases h
    · cases h
  · rintro (_ | hNull)
    · exact Codec.pick_eq_ok hAll hName a
    · simp only [named, Codec.pick_eq_ok hAll hName a, stands_for_null_iff.mpr hNull]
      rfl

theorem string_value_eq_ok_iff {s : String} : string.value held v = .ok s ↔ v = .string s := by
  cases v with
  | string t => simp [string]
  | _ => simp [string]

end Decoder

/-! ## Records -/

namespace Format

variable {σ : Type} {F : Format σ} {a : σ}

theorem Lawful.ofValue_object_eq_ok_iff (h : F.Lawful) (hParts : F.parts = [])
    {ms : List (String × Json)} :
    F.scheme.ofValue held (.object ms) = .ok a ↔ ∀ c ∈ F.components,
      (valuesUnder c.names ms = [] ∧ c.mandatory = false ∧ c.get a = c.get F.blank) ∨
        ∃ v, valuesUnder c.names ms = [v] ∧ c.decoder.value held v = .ok (c.get a) := by
  change F.scheme.ofMembers held ms = .ok a ↔ _
  rw [h.ofMembers_eq_ok_iff]
  constructor
  · exact fun hReads c hc => says_iff.mp (hReads.component c hc)
  · intro hSays
    refine ⟨fun c hc => says_iff.mpr (hSays c hc), fun p hp => ?_⟩
    rw [hParts] at hp
    exact absurd hp List.not_mem_nil

theorem ofValue_array (hParts : F.parts = []) (vs : List Json) :
    F.scheme.ofValue held (.array vs) =
      Scheme.sequence (fun f v => (Reader.value held).read f.decoder v)
        (F.components.map Component.field) vs F.blank := by
  have hBlocks : F.scheme.blocks.isEmpty = true := by rw [scheme, hParts]; rfl
  simp only [Scheme.ofValue, hBlocks, if_true]
  rfl

end Format

/-! ## Keys -/

namespace Key

/-- A key has its type and its value once each. -/
inductive Wire (held : Held) (k : Key) : Json → Prop
  | object {ms : List (String × Json)} {t : Json} (hType : valuesUnder ["type"] ms = [t])
    (hName : t.Spells held k.type.name) (hValue : valuesUnder ["value"] ms = [.string k.value]) :
    Wire held k (.object ms)
  | array {t : Json} (hName : t.Spells held k.type.name) : Wire held k (.array [t, .string k.value])

/-- The keys are either not there or an array. -/
inductive Listed (held : Held) : List Key → List Json → Prop
  | absent : Listed held [] []
  | present {keys : List Key} {vs : List Json} (h : List.Forall₂ (fun v k => Wire held k v) vs keys) :
    Listed held keys [.array vs]

variable {k : Key} {keys : List Key}

theorem type_value_eq_ok_iff {t : KeyType} :
    KeyType.decoder.value held v = .ok t ↔ v.Spells held t.name :=
  Decoder.named_value_eq_ok_iff KeyType.mem_all fun _ _ => KeyType.name_injective

theorem value_eq_ok_iff : scheme.decoder.value held v = .ok k ↔ Wire held k v := by
  cases v with
  | object ms =>
    refine (format_lawful.ofValue_object_eq_ok_iff rfl).trans ?_
    rw [format, List.forall_mem_cons, List.forall_mem_singleton]
    constructor
    · rintro ⟨⟨-, hMandatory, -⟩ | ⟨t, hType, hName⟩, hValue⟩
      · cases hMandatory
      · rcases hValue with ⟨-, hMandatory, -⟩ | ⟨s, hValue, hString⟩
        · cases hMandatory
        · obtain rfl := Decoder.string_value_eq_ok_iff.mp hString
          exact .object hType (type_value_eq_ok_iff.mp hName) hValue
    · rintro (⟨hType, hName, hValue⟩ | _)
      exact ⟨.inr ⟨_, hType, type_value_eq_ok_iff.mpr hName⟩, .inr ⟨_, hValue, rfl⟩⟩
  | array vs =>
    change format.scheme.ofValue held (.array vs) = .ok k ↔ _
    rw [Format.ofValue_array rfl]
    constructor
    · intro h
      rcases vs with _ | ⟨t, _ | ⟨s, vs⟩⟩
      · cases h
      · obtain ⟨_, -, h⟩ := Format.sequence_cons_eq_ok_iff.mp h
        cases h
      · obtain ⟨type, hName, h⟩ := Format.sequence_cons_eq_ok_iff.mp h
        obtain ⟨value, hValue, h⟩ := Format.sequence_cons_eq_ok_iff.mp h
        have hString : Decoder.string.value held s = .ok value := hValue
        obtain rfl := Decoder.string_value_eq_ok_iff.mp hString
        cases vs with
        | nil =>
          cases h
          exact .array (type_value_eq_ok_iff.mp hName)
        | cons _ _ => cases h
    · rintro (_ | hName)
      exact Format.sequence_cons_eq_ok_iff.mpr ⟨k.type, type_value_eq_ok_iff.mpr hName,
        Format.sequence_cons_eq_ok_iff.mpr ⟨k.value, rfl, rfl⟩⟩
  | _ =>
    refine iff_of_false (fun h => ?_) fun h => ?_
    · cases h
    · cases h

theorem list_value_eq_ok_iff :
    scheme.decoder.list.value held v = .ok keys ↔ Listed held keys [v] := by
  simp only [Codec.list_value_eq_ok_iff, value_eq_ok_iff]
  constructor
  · rintro ⟨vs, rfl, h⟩
    exact .present h
  · rintro (_ | h)
    exact ⟨_, rfl, h⟩

end Key

/-! ## References -/

namespace Reference

/-- What kind and keys look like, sound or not. -/
inductive Wire (held : Held) (kind : ReferenceKind) (keys : List Key) : Json → Prop
  | object {ms : List (String × Json)} {t : Json} (hType : valuesUnder ["type"] ms = [t])
    (hName : t.Spells held kind.name) (hKeys : Key.Listed held keys (valuesUnder ["keys"] ms)) :
    Wire held kind keys (.object ms)
  | array {t : Json} {ks : List Json} (hName : t.Spells held kind.name)
    (hKeys : Key.Listed held keys ks) : Wire held kind keys (.array (t :: ks))

variable {kind : ReferenceKind} {keys : List Key}

theorem kind_value_eq_ok_iff :
    ReferenceKind.decoder.value held v = .ok kind ↔ v.Spells held kind.name :=
  Decoder.named_value_eq_ok_iff ReferenceKind.mem_all fun _ _ => ReferenceKind.name_injective

theorem draft_value_eq_ok_iff :
    Draft.scheme.ofValue held v = .ok ⟨kind, keys⟩ ↔ Wire held kind keys v := by
  cases v with
  | object ms =>
    refine (Draft.format_lawful.ofValue_object_eq_ok_iff rfl).trans ?_
    rw [Draft.format, List.forall_mem_cons, List.forall_mem_singleton]
    constructor
    · rintro ⟨⟨-, hMandatory, -⟩ | ⟨t, hType, hName⟩, hKeys⟩
      · cases hMandatory
      · refine .object hType (kind_value_eq_ok_iff.mp hName) ?_
        rcases hKeys with ⟨hNone, -, hBlank⟩ | ⟨w, hSingle, hList⟩
        · obtain rfl : keys = [] := hBlank
          exact hNone ▸ .absent
        · exact hSingle ▸ Key.list_value_eq_ok_iff.mp hList
    · rintro (⟨hType, hName, hKeys⟩ | _)
      refine ⟨.inr ⟨_, hType, kind_value_eq_ok_iff.mpr hName⟩, ?_⟩
      change (valuesUnder ["keys"] ms = [] ∧ false = false ∧ keys = []) ∨
        ∃ w, valuesUnder ["keys"] ms = [w] ∧ Key.scheme.decoder.list.value held w = .ok keys
      generalize valuesUnder ["keys"] ms = ws at hKeys
      cases hKeys with
      | absent => exact .inl ⟨rfl, rfl, rfl⟩
      | present h => exact .inr ⟨_, rfl, Key.list_value_eq_ok_iff.mpr (.present h)⟩
  | array vs =>
    change Draft.format.scheme.ofValue held (.array vs) = .ok _ ↔ _
    rw [Format.ofValue_array rfl]
    constructor
    · intro h
      rcases vs with _ | ⟨t, ks⟩
      · cases h
      · obtain ⟨found, hName, h⟩ := Format.sequence_cons_eq_ok_iff.mp h
        rcases ks with _ | ⟨w, ks⟩
        · cases h
          exact .array (kind_value_eq_ok_iff.mp hName) .absent
        · obtain ⟨list, hList, h⟩ := Format.sequence_cons_eq_ok_iff.mp h
          cases ks with
          | nil =>
            cases h
            exact .array (kind_value_eq_ok_iff.mp hName) (Key.list_value_eq_ok_iff.mp hList)
          | cons _ _ => cases h
    · rintro (_ | ⟨hName, hKeys⟩)
      refine Format.sequence_cons_eq_ok_iff.mpr ⟨kind, kind_value_eq_ok_iff.mpr hName, ?_⟩
      cases hKeys with
      | absent => rfl
      | present h =>
        refine Format.sequence_cons_eq_ok_iff.mpr ⟨keys, ?_, rfl⟩
        exact Key.list_value_eq_ok_iff.mpr (.present h)
  | _ =>
    refine iff_of_false (fun h => ?_) fun h => ?_
    · cases h
    · cases h

/-- The chain has the last word: without a fault the result has this kind and these keys, with one
the message is that of the fault. -/
structure DecidedByChain (kind : ReferenceKind) (keys : List Key) (decoded : Decoded Reference) :
    Prop where
  accepted : (∃ r, decoded = .ok r) ↔ Chain.fault? kind keys = none
  same : ∀ r, decoded = .ok r → r.kind = kind ∧ r.keys = keys
  refused : ∀ f, Chain.fault? kind keys = some f → ∃ fault,
    Fault.ofDecoded decoded = .error fault ∧ fault.rule = "parse-error" ∧
      fault.message? = some ("JSON error: " ++ f.message)

theorem decidedByChain_check (d : Draft) : DecidedByChain d.kind d.keys d.check := by
  cases hFault : Chain.fault? d.kind d.keys with
  | none =>
    have hCheck : d.check = .ok ⟨d.kind, d.keys, hFault⟩ := check_eq_ok_iff.mpr ⟨rfl, rfl⟩
    rw [hCheck]
    refine ⟨iff_of_true ⟨_, rfl⟩ hFault, fun r h => ?_, fun f h => ?_⟩
    · cases h
      exact ⟨rfl, rfl⟩
    · rw [hFault] at h
      cases h
  | some f =>
    have hCheck : d.check = .error (.chain f) := by
      rw [Draft.check, ofKeys_eq_error_iff.mpr hFault]
    rw [hCheck]
    refine ⟨iff_of_false ?_ fun h => ?_, fun r h => ?_, fun f' h => ?_⟩
    · rintro ⟨r, h⟩
      cases h
    · rw [hFault] at h
      cases h
    · cases h
    · obtain rfl := Option.some.inj (hFault.symm.trans h)
      exact ⟨_, rfl, rfl, rfl⟩

theorem value_of_wire (h : Wire held kind keys v) :
    decoder.value held v = Draft.check ⟨kind, keys⟩ := by
  change (Draft.scheme.ofValue held v).bind Draft.check = _
  rw [draft_value_eq_ok_iff.mpr h]
  rfl

theorem wire_of_value {r : Reference} (h : decoder.value held v = .ok r) :
    Wire held r.kind r.keys v := by
  obtain ⟨d, hDraft, hCheck⟩ := exists_of_bind_eq_ok h
  obtain ⟨hKind, hKeys⟩ := check_eq_ok_iff.mp hCheck
  rw [hKind, hKeys]
  exact draft_value_eq_ok_iff.mp hDraft

theorem check_own (r : Reference) : Draft.check ⟨r.kind, r.keys⟩ = .ok r :=
  check_eq_ok_iff.mpr ⟨rfl, rfl⟩

theorem ofText_print {l : Json.Layout} (hl : l.Blank) (r : Reference) :
    decoder.ofText (Json.print l r.toJson) = .ok r := by
  have hDepth : r.toJson.depth ≤ Json.maxLevels :=
    (Draft.depth_toJson_le ⟨r.kind, r.keys⟩).trans (by decide)
  have hTidy : r.toJson.Tidy := Draft.tidy_toJson ⟨r.kind, r.keys⟩
  have hDraft : Draft.scheme.ofValue .parsed r.toJson = .ok ⟨r.kind, r.keys⟩ :=
    restores_draft (.refl hTidy.distinct)
  exact (ofText_of_draft (Json.rawOfText?_print hl hTidy hDepth) hDraft).trans r.check_own

/-- A reference that was written is decoded again. What comes as kind and keys, and nothing else, is
decoded, if the chain has no fault. -/
theorem decoded_as_chain_decides :
    (∀ r : Reference,
      (∀ held v, v.Alike r.toJson → decoder.value held v = .ok r) ∧
      (∀ s v, Json.rawOfText? s = some v → v.Alike r.toJson → decoder.ofText s = .ok r) ∧
      (∀ l : Json.Layout, l.Blank → decoder.ofText (Json.print l r.toJson) = .ok r) ∧
      ∀ f : OutputFormat, decoder.ofText (f.render r.toJson) = .ok r) ∧
    (∀ held kind keys v, Wire held kind keys v →
      DecidedByChain kind keys (decoder.value held v)) ∧
    (∀ kind keys s v, Json.rawOfText? s = some v → Wire .parsed kind keys v →
      DecidedByChain kind keys (decoder.ofText s)) ∧
    ∀ held v r, decoder.value held v = .ok r → Wire held r.kind r.keys v := by
  refine ⟨fun r => ?_, fun held kind keys v h => ?_, fun kind keys s v hText h => ?_,
    fun held v r => wire_of_value⟩
  · obtain ⟨hValue, hText, hRendered⟩ := decode_draft ⟨r.kind, r.keys⟩
    rw [r.check_own] at hValue hText hRendered
    exact ⟨hValue, hText, fun l hl => ofText_print hl r, hRendered⟩
  · rw [value_of_wire h]
    exact decidedByChain_check ⟨kind, keys⟩
  · rw [ofText_of_draft hText (draft_value_eq_ok_iff.mpr h)]
    exact decidedByChain_check ⟨kind, keys⟩

/-- Keys that are not there are none, and no chain is empty. -/
theorem refused_without_keys :
    let v : Json := .object [("note", .bool true), ("type", .string "ModelReference")]
    ∃ fault, Fault.ofDecoded (decoder.ofText (Json.print .compact v)) = .error fault ∧
      fault.rule = "parse-error" ∧
      fault.message? = some "JSON error: empty-chain: a reference must contain at least one key" := by
  intro v
  have hTidy : v.Tidy := by
    refine .object (by decide) ?_
    exact List.forall_mem_cons.mpr ⟨.bool true, List.forall_mem_singleton.mpr (.string _)⟩
  have hText : Json.rawOfText? (Json.print .compact v) = some v :=
    Json.rawOfText?_print Json.Layout.compact_blank hTidy (by decide)
  have hWire : Wire .parsed .model [] v := .object rfl .string .absent
  obtain ⟨fault, hFault, hRule, hMessage⟩ :=
    (decoded_as_chain_decides.2.2.1 _ _ _ _ hText hWire).refused .empty (by decide)
  exact ⟨fault, hFault, hRule, hMessage.trans (by decide)⟩

end Reference

end AssetShell
