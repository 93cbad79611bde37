import AssetShell.Document
import AssetShell.Proofs.Interchange.Codec

/-!
# What a successful reading went through

An entity that was read from a text was decoded and has passed its check; so did the entities of a
document, each of which was decoded from an item of an array or from the one value of the text. A
reading that fails does so in the decoder or else in the check. Readings that decode the same have
the same outcome.
-/

namespace AssetShell

theorem Decoder.ofText_eq_ok_iff {α : Type} {d : Decoder α} {s : String} {a : α} :
    d.ofText s = .ok a ↔
      d.text Json.maxLevels (Outline.ofText s).1 = .ok a ∧ (Outline.ofText s).2 = true := by
  constructor
  · intro h
    obtain ⟨b, hText, h⟩ := exists_of_bind_eq_ok h
    split at h
    · rename_i hAlone
      cases h
      exact ⟨hText, hAlone⟩
    · cases h
  · rintro ⟨hText, hAlone⟩
    change (d.text Json.maxLevels (Outline.ofText s).1).bind _ = _
    rw [hText]
    exact if_pos hAlone

theorem Decoder.text_of_ofText {α : Type} {d : Decoder α} {s : String} {a : α}
    (h : d.ofText s = .ok a) : d.text Json.maxLevels (Outline.ofText s).1 = .ok a :=
  (ofText_eq_ok_iff.mp h).1

namespace Fault

variable {α : Type} {a : α}

theorem eq_ok_of_ofDecoded {x : Decoded α} (h : ofDecoded x = .ok a) : x = .ok a := by
  cases x with
  | error e => cases h
  | ok b => exact congrArg Except.ok (Except.ok.inj h)

theorem eq_ok_of_ofChecked {x : Except Violation α} (h : ofChecked x = .ok a) : x = .ok a := by
  cases x with
  | error e => cases h
  | ok b => exact congrArg Except.ok (Except.ok.inj h)

end Fault

/-! ## Decoding and then checking -/

section Settled

variable {α : Type} {x : Decoded α} {check : α → Checked} {a : α}

/-- What was decoded is checked. -/
def settled (x : Decoded α) (check : α → Checked) : Except Fault α := do
  let a ← Fault.ofDecoded x
  Fault.ofChecked (check a)
  return a

theorem settled_eq_ok_iff : settled x check = .ok a ↔ x = .ok a ∧ check a = .ok () := by
  constructor
  · intro h
    obtain ⟨b, hDecoded, h⟩ := exists_of_bind_eq_ok h
    obtain ⟨_, hChecked, h⟩ := exists_of_bind_eq_ok h
    cases h
    exact ⟨Fault.eq_ok_of_ofDecoded hDecoded, Fault.eq_ok_of_ofChecked hChecked⟩
  · rintro ⟨rfl, hCheck⟩
    change (Fault.ofChecked (check a)).bind (fun _ => .ok a) = _
    rw [hCheck]
    rfl

theorem settled_eq_decode_iff {f : DecodeFault} :
    settled x check = .error (.decode f) ↔ x = .error f := by
  cases x with
  | error g =>
    change Except.error (Fault.decode g) = Except.error (Fault.decode f) ↔ _
    rw [Except.error.injEq, Except.error.injEq, Fault.decode.injEq]
  | ok a =>
    change (Fault.ofChecked (check a)).bind (fun _ => .ok a) = _ ↔ _
    cases check a <;> constructor <;> exact fun h => by cases h

theorem settled_eq_violation_iff {v : Violation} :
    settled x check = .error (.violation v) ↔ ∃ a, x = .ok a ∧ check a = .error v := by
  cases x with
  | error f =>
    constructor
    · exact fun h => by cases h
    · rintro ⟨_, ⟨⟩, _⟩
  | ok a =>
    change (Fault.ofChecked (check a)).bind (fun _ => .ok a) = _ ↔ _
    constructor
    · intro h
      cases hCheck : check a with
      | error w =>
        rw [hCheck] at h
        cases h
        exact ⟨a, rfl, hCheck⟩
      | ok =>
        rw [hCheck] at h
        cases h
    · rintro ⟨_, ⟨⟩, hCheck⟩
      rw [hCheck]
      rfl

theorem settled_map {β : Type} {f : α → β} {check' : β → Checked}
    (h : ∀ a, check' (f a) = check a) (x : Decoded α) :
    settled (x.map f) check' = (settled x check).map f := by
  cases x with
  | error fault => rfl
  | ok a =>
    change (Fault.ofChecked (check' (f a))).bind (fun _ => .ok (f a)) =
      Except.map f ((Fault.ofChecked (check a)).bind fun _ => .ok a)
    rw [h a]
    cases check a <;> rfl

end Settled

/-! ## Readings with the same outcome -/

namespace Fault

variable {α β : Type} {f : α → β}

/-- Two readings succeed with `a` and with `f a`, or find the same violation, or neither decodes. -/
inductive SameOutcome (f : α → β) : Except Fault α → Except Fault β → Prop
  | ok (a : α) : SameOutcome f (.ok a) (.ok (f a))
  | violation (v : Violation) : SameOutcome f (.error (.violation v)) (.error (.violation v))
  | decode (x y : DecodeFault) : SameOutcome f (.error (.decode x)) (.error (.decode y))

theorem sameOutcome_of_decoded {x : Decoded α} {y : Decoded β} {check : α → Checked}
    {check' : β → Checked} (hCheck : ∀ a, check' (f a) = check a)
    (hLeft : ∀ a, x = .ok a → y = .ok (f a)) (hRight : ∀ b, y = .ok b → ∃ a, x = .ok a) :
    SameOutcome f
      (do let a ← ofDecoded x; ofChecked (check a); return a)
      (do let b ← ofDecoded y; ofChecked (check' b); return b) := by
  cases x with
  | error fault =>
    cases y with
    | error other => exact .decode fault other
    | ok b =>
      obtain ⟨a, ha⟩ := hRight b rfl
      cases ha
  | ok a =>
    rw [hLeft a rfl]
    change SameOutcome f ((ofChecked (check a)).bind fun _ => .ok a)
      ((ofChecked (check' (f a))).bind fun _ => .ok (f a))
    rw [hCheck a]
    cases check a with
    | error v => exact .violation v
    | ok => exact .ok a

end Fault

/-! ## Successful readings -/

theorem ofText_of_readEntity {α : Type} {d : Decoder α} {check : α → Checked} {s : String} {a : α}
    (h : readEntity d check s = .ok a) : d.ofText s = .ok a ∧ check a = .ok () :=
  settled_eq_ok_iff.mp h

namespace Document

variable {s : String} {v : Json} {es : List Identifiable}

theorem decodeValue_inv (h : decodeValue v = .ok es) :
    (∃ items, v = .array items ∧ items.mapM (Identifiable.decoder.value .parsed) = .ok es) ∨
      ∃ i, es = [i] ∧ Identifiable.decoder.value .parsed v = .ok i := by
  unfold decodeValue at h
  split at h
  · exact .inl ⟨_, rfl, h⟩
  · right
    obtain ⟨i, hi, rfl⟩ := exists_of_map_eq_ok h
    exact ⟨i, rfl, hi⟩

theorem read_eq_settled (s : String) : read s = settled (decode s) (checkAll Identifiable.check) :=
  rfl

theorem read_inv (h : read s = .ok es) :
    ∃ v, Json.ofText? s = some v ∧ decodeValue v = .ok es ∧
      checkAll Identifiable.check es = .ok () := by
  rw [read_eq_settled, settled_eq_ok_iff, decode] at h
  obtain ⟨hDecode, hCheck⟩ := h
  cases hv : Json.ofText? s with
  | none => rw [hv] at hDecode; cases hDecode
  | some v =>
    rw [hv] at hDecode
    exact ⟨v, rfl, hDecode, hCheck⟩

end Document

end AssetShell
