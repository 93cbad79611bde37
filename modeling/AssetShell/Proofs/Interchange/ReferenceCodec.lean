import AssetShell.Proofs.Interchange.FormatCodec

/-!
# The codec of references

The chain of a reference is checked after its object has been read, so a decoded reference has a
key and its source nests deep enough to hold it. The chain of a written reference has no fault, so
its check is passed again.
-/

namespace AssetShell

variable {n : Nat}

def KeyType.codec : Codec KeyType := .worded decoder name

@[simp] theorem KeyType.codec_lawful : codec.Lawful n :=
  Codec.named_lawful mem_all fun _ _ => name_injective

def ReferenceKind.codec : Codec ReferenceKind := .worded decoder name

theorem ReferenceKind.mem_all (k : ReferenceKind) : k ∈ all := by cases k <;> decide

theorem ReferenceKind.name_injective {a b : ReferenceKind} : a.name = b.name → a = b := by
  cases a <;> cases b <;> decide

@[simp] theorem ReferenceKind.codec_lawful : codec.Lawful n :=
  Codec.named_lawful mem_all fun _ _ => name_injective

/-! ## Keys -/

namespace Key

def members (k : Key) : List (String × Json) :=
  [("type", .string k.type.name), ("value", .string k.value)]

def format : Format Key where
  blank := ⟨.globalReference, ""⟩
  components := [
    .required "type" KeyType.codec type fun k t => { k with type := t },
    .required "value" .string value fun k v => { k with value := v }]

theorem format_lawful : format.Lawful := by
  constructor
  case names => decide
  case ext =>
    rintro ⟨_, _⟩ ⟨_, _⟩
    simp [format, Component.required]
  all_goals simp [format, Component.required]

theorem format_writes : format.Writes members := fun _ => .of_eq rfl

theorem format_pieces : format.LawfulPieces (fun _ => []) n where
  component := by simp [format]
  part := by simp [format]
  vacant := by simp [format]
  references := by simp

def codec : Codec Key := (format.object members fun _ => []).codec

@[simp] theorem codec_lawful : codec.Lawful n :=
  Format.codec_lawful format_lawful format_writes format_pieces

end Key

/-! ## Drafts -/

namespace Reference

namespace Draft

def members (d : Draft) : List (String × Json) :=
  [("type", .string d.kind.name), ("keys", .array (d.keys.map Key.toJson))]

/-- The keys are always written, but a source without them counts as one with no keys. -/
def format : Format Draft where
  blank := ⟨.external, []⟩
  components := [
    .required "type" ReferenceKind.codec kind fun d k => { d with kind := k },
    .defaulted "keys" Key.codec.list keys fun d ks => { d with keys := ks }]

theorem format_lawful : format.Lawful := by
  constructor
  case names => decide
  case ext =>
    rintro ⟨_, _⟩ ⟨_, _⟩
    simp [format, Component.required, Component.defaulted]
  all_goals simp [format, Component.required, Component.defaulted]

theorem format_writes : format.Writes members := fun _ => .of_eq rfl

theorem component_lawful : ∀ c ∈ format.components, c.Lawful n := by
  simp [format, Codec.list_lawful]

theorem part_lawful : ∀ p ∈ format.parts, p.object.Lawful n :=
  fun _ hp => absurd hp List.not_mem_nil

theorem component_present : ∀ c ∈ format.components, ∀ b, c.write b = none →
    c.mandatory = false ∧ b = c.get format.blank := by
  simp [format, Component.required, Component.defaulted]

end Draft

theorem check_eq_ok_iff {d : Draft} {r : Reference} :
    d.check = .ok r ↔ r.kind = d.kind ∧ r.keys = d.keys := by
  rw [← ofKeys_eq_ok_iff, Draft.check]
  cases ofKeys d.kind d.keys <;> simp

theorem exists_ofKeys_of_refine {x : Decoded Draft} {r : Reference}
    (h : x.bind Draft.check = .ok r) :
    ∃ d, x = .ok d ∧ ofKeys d.kind d.keys = .ok r := by
  obtain ⟨d, hd, h⟩ := exists_of_bind_eq_ok h
  exact ⟨d, hd, ofKeys_eq_ok_iff.mpr (check_eq_ok_iff.mp h)⟩

theorem exists_ofKeys_of_value {held : Held} {v : Json} {r : Reference}
    (h : decoder.value held v = .ok r) :
    ∃ d, Draft.scheme.ofValue held v = .ok d ∧ ofKeys d.kind d.keys = .ok r :=
  exists_ofKeys_of_refine h

theorem exists_ofKeys_of_text {levels : Nat} {o : Outline} {r : Reference}
    (h : decoder.text levels o = .ok r) :
    ∃ d, Draft.scheme.ofText levels o = .ok d ∧ ofKeys d.kind d.keys = .ok r :=
  exists_ofKeys_of_refine h

def codec : Codec Reference := ⟨decoder, toJson, fun r => [r]⟩

/-- The chain need not be sound. -/
def Draft.toJson (d : Draft) : Json := .object d.members

theorem Draft.tidy_toJson (d : Draft) : d.toJson.Tidy := by
  have hNames := format_writes.names_nodup format_lawful (part_lawful (n := 0)) d
  refine .object hNames fun m hm => ?_
  exact format_writes.tidy component_lawful part_lawful hm (Nat.lt_succ_self _)

theorem restores_draft {held : Held} {v : Json} {d : Draft} (hv : v.Alike d.toJson) :
    Draft.scheme.ofValue held v = .ok d := by
  obtain ⟨ms, rfl, hms⟩ := hv.object
  exact Draft.format_writes.restores (n := d.toJson.depth) Draft.format_lawful
    Draft.component_lawful Draft.part_lawful Draft.component_present
    (fun m hm => Nat.lt_succ_of_le (Json.depth_le_depthOfMembers hm)) hms

/-- The keys of a decoded reference come from a part of its source, since there is at least one. -/
theorem depth_toJson_le {held : Held} {v : Json} {r : Reference}
    (h : decoder.value held v = .ok r) : r.toJson.depth ≤ v.depth := by
  obtain ⟨d, hd, hr⟩ := exists_ofKeys_of_value h
  have hKeys : r.keys = d.keys := (ofKeys_eq_ok_iff.mp hr).2
  have hComponents := (Draft.format_lawful.ofValue_inv hd).1
  have hOwn : ∃ w ∈ v.parts, Key.codec.list.decoder.value held w = .ok d.keys := by
    have hKeysComponent := hComponents _ (List.mem_cons_of_mem _ List.mem_cons_self)
    rcases hKeysComponent with ⟨-, hBlank⟩ | hFound
    · exact absurd (hKeys.trans hBlank) r.keys_ne_nil
    · exact hFound
  obtain ⟨w, hw, hDecode⟩ := hOwn
  have hLe : (Json.array (d.keys.map Key.toJson)).depth ≤ w.depth :=
    (Codec.list_lawful (Key.codec_lawful (n := 0))).depth_le held w d.keys hDecode
  have hLt := Json.depth_lt_of_mem_parts hw
  rw [toJson, hKeys]
  simp only [Json.depth, Json.depthOfMembers] at hLe ⊢
  omega

@[simp] theorem codec_lawful : codec.Lawful n where
  tidy r _ := Draft.tidy_toJson ⟨r.kind, r.keys⟩
  restores r _ held v hv := by
    change (Draft.scheme.ofValue held v).bind Draft.check = .ok r
    rw [restores_draft (d := ⟨r.kind, r.keys⟩) hv]
    exact check_eq_ok_iff.mpr ⟨rfl, rfl⟩
  depth_le held v r h := depth_toJson_le h
  of_value held v a ha r hr := by
    rw [List.mem_singleton.mp hr]
    exact .here ha
  of_text levels o a ha r hr := by
    rw [List.mem_singleton.mp hr]
    exact .here ha

end Reference

end AssetShell
