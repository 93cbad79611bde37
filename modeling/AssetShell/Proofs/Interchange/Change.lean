import AssetShell.Proofs.Interchange.Simulation

/-!
# Changes of a spelling

The same entity may be spelled in many ways: its members in another order, under other names of
theirs, with the mark of a datatype or without it, with members that are not known, and with null in
place of nothing. Each such detail, at any depth at which entities are decoded, is one change.
-/

namespace AssetShell

namespace Pattern

def isObject : Pattern → Bool
  | .record _ => true
  | .tagged _ => true
  | _ => false

/-- The names that an object is asked for. A tagged one is asked for its tag in any case. -/
inductive Knows {ν : Type} (view : ν → Option Json) (tags : List ν) : Pattern → String → Prop
  | slot {p : Pattern} {slots : List Slot} {s : Slot} {name : String}
    (hAsks : p.Asks view tags slots) (hs : s ∈ slots) (hName : name ∈ s.names) :
    Knows view tags p name
  | tag (variants : List (String × RecordKind)) : Knows view tags (.tagged variants) Tagged.tagName

end Pattern

namespace Pattern.Asks

variable {ν : Type} {view : ν → Option Json} {tags : List ν} {p : Pattern} {slots : List Slot}

theorem isObject (h : p.Asks view tags slots) : p.isObject = true := by
  cases h <;> rfl

theorem names_nodup (h : p.Asks view tags slots) : (slots.flatMap Slot.names).Nodup := by
  cases h with
  | record k => exact (List.nodup_append.mp k.names_nodup).2.1
  | tagged => exact RecordKind.names_nodup _

end Pattern.Asks

namespace Outline

/-! ## Changes -/

/-- One change of the spelling of an outline of which `p` is asked, where `n` groups may nest. -/
inductive Change : Pattern → Nat → Outline → Outline → Prop
  /-- A datatype gets the mark of its namespace. -/
  | marked (n : Nat) (d : Datatype) :
    Change .datatype n (.string (some d.name)) (.string (some ("xs:" ++ d.name)))
  | present {p : Pattern} {n : Nat} {o o' : Outline} (h : Change p n o o') :
    Change (.nullable p) n o o'
  | item {p : Pattern} {n : Nat} {o o' : Outline} (l r : List Outline) (closed : Bool)
    (h : Change p (n - 1) o o') :
    Change (.list p) n (.array (l ++ o :: r) closed) (.array (l ++ o' :: r) closed)
  /-- A record that is given as an array is asked for its slots in their order. -/
  | position {k : RecordKind} {s : Slot} {n : Nat} {o o' : Outline} (l r : List Outline)
    (closed : Bool) (hs : k.slots[l.length]? = some s) (h : Change s.pattern (n - 1) o o') :
    Change (.record k) n (.array (l ++ o :: r) closed) (.array (l ++ o' :: r) closed)
  | permuted {p : Pattern} {ms ns : List (Option String × Outline)} (n : Nat) (closed : Bool)
    (hp : p.isObject = true) (h : ms.Perm ns) :
    Change p n (.object ms closed) (.object ns closed)
  | renamed {p : Pattern} {n : Nat} {slots : List Slot} {s : Slot} {name other : String}
    {o : Outline} (l r : List (Option String × Outline)) (closed : Bool)
    (hAsks : p.Asks (value? (n - 1)) (under [Tagged.tagName] (l ++ (some name, o) :: r)) slots)
    (hs : s ∈ slots) (hName : name ∈ s.names) (hOther : other ∈ s.names) :
    Change p n (.object (l ++ (some name, o) :: r) closed)
      (.object (l ++ (some other, o) :: r) closed)
  /-- A member that is not known gets in, if it has a value. -/
  | unknown {p : Pattern} {n : Nat} {name : String} {o : Outline}
    (l r : List (Option String × Outline)) (closed : Bool) (hp : p.isObject = true)
    (hNew : ¬ p.Knows (value? (n - 1)) (under [Tagged.tagName] (l ++ r)) name)
    (hValue : (o.value? (n - 1)).isSome = true) :
    Change p n (.object (l ++ r) closed) (.object (l ++ (some name, o) :: r) closed)
  /-- What is absent and may be null becomes null. -/
  | null {p : Pattern} {n : Nat} {slots : List Slot} {s : Slot} {name : String}
    (l r : List (Option String × Outline)) (closed : Bool)
    (hAsks : p.Asks (value? (n - 1)) (under [Tagged.tagName] (l ++ r)) slots)
    (hs : s ∈ slots) (hName : name ∈ s.names) (hNullable : s.pattern.isNullable = true)
    (hAbsent : under s.names (l ++ r) = []) :
    Change p n (.object (l ++ r) closed) (.object (l ++ (some name, .null) :: r) closed)
  | inside {p : Pattern} {n : Nat} {slots : List Slot} {s : Slot} {name : String} {o o' : Outline}
    (l r : List (Option String × Outline)) (closed : Bool)
    (hAsks : p.Asks (value? (n - 1)) (under [Tagged.tagName] (l ++ (some name, o) :: r)) slots)
    (hs : s ∈ slots) (hName : name ∈ s.names) (h : Change s.pattern (n - 1) o o') :
    Change p n (.object (l ++ (some name, o) :: r) closed)
      (.object (l ++ (some name, o') :: r) closed)

variable {p : Pattern} {n : Nat} {o o' : Outline} {slots : List Slot} {s : Slot}

/-! ## Changes keep to the form -/

theorem Change.isWhole_iff (h : Change p n o o') : o'.isWhole = true ↔ o.isWhole = true := by
  induction h with
  | marked => rfl
  | present _ ih => exact ih
  | permuted n closed _ h => simp only [isWhole_object, h.mem_iff]
  | unknown l r closed _ _ hValue =>
    obtain ⟨v, hv⟩ := Option.isSome_iff_exists.mp hValue
    simp only [isWhole_object, List.forall_mem_append, List.forall_mem_cons,
      isWhole_of_value? hv, true_and]
  | null =>
    have hNull : Outline.null.isWhole = true := rfl
    simp only [isWhole_object, List.forall_mem_append, List.forall_mem_cons, hNull, true_and]
  | item l r closed _ ih | position l r closed _ _ ih =>
    simp only [isWhole_array, List.forall_mem_append, List.forall_mem_cons, ih]
  | renamed => simp only [isWhole_object, List.forall_mem_append, List.forall_mem_cons]
  | inside l r closed _ _ _ _ ih =>
    simp only [isWhole_object, List.forall_mem_append, List.forall_mem_cons, ih]

theorem Change.isSome_value?_iff (h : Change p n o o') :
    (o'.value? n).isSome = true ↔ (o.value? n).isSome = true := by
  induction h with
  | marked => simp only [value?, Option.map_some, Option.isSome_some]
  | present _ ih => exact ih
  | permuted n closed _ h => simp only [isSome_value?_object, h.mem_iff]
  | unknown l r closed _ _ hValue =>
    simp only [isSome_value?_object, List.forall_mem_append, List.forall_mem_cons, hValue,
      Option.isSome_some, true_and]
  | null =>
    have hNull (n : Nat) : (Outline.null.value? n).isSome = true := rfl
    simp only [isSome_value?_object, List.forall_mem_append, List.forall_mem_cons, hNull,
      Option.isSome_some, true_and]
  | item l r closed _ ih | position l r closed _ _ ih =>
    simp only [isSome_value?_array, List.forall_mem_append, List.forall_mem_cons, ih]
  | renamed =>
    simp only [isSome_value?_object, List.forall_mem_append, List.forall_mem_cons,
      Option.isSome_some]
  | inside l r closed _ _ _ _ ih =>
    simp only [isSome_value?_object, List.forall_mem_append, List.forall_mem_cons, ih,
      Option.isSome_some]

theorem Change.ne_null (h : Change p n o o') : o ≠ .null ∧ o' ≠ .null := by
  induction h with
  | present _ ih => exact ih
  | _ => exact ⟨nofun, nofun⟩

/-! ## Changes by their patterns -/

theorem not_change_plain : ¬ Change .plain n o o' := by
  intro h
  cases h with
  | permuted _ _ hp | unknown _ _ _ hp => cases hp
  | renamed _ _ _ hAsks | null _ _ _ hAsks | inside _ _ _ hAsks => cases hAsks

theorem Change.datatype_inv (h : Change .datatype n o o') :
    ∃ d : Datatype, o = .string (some d.name) ∧ o' = .string (some ("xs:" ++ d.name)) := by
  cases h with
  | marked n d => exact ⟨d, rfl, rfl⟩
  | permuted _ _ hp | unknown _ _ _ hp => cases hp
  | renamed _ _ _ hAsks | null _ _ _ hAsks | inside _ _ _ hAsks => cases hAsks

theorem Change.nullable_inv (h : Change (.nullable p) n o o') : Change p n o o' := by
  cases h with
  | present h => exact h
  | permuted _ _ hp | unknown _ _ _ hp => cases hp
  | renamed _ _ _ hAsks | null _ _ _ hAsks | inside _ _ _ hAsks => cases hAsks

theorem Change.list_inv (h : Change (.list p) n o o') :
    ∃ l o₁ o₂ r closed, o = .array (l ++ o₁ :: r) closed ∧ o' = .array (l ++ o₂ :: r) closed ∧
      Change p (n - 1) o₁ o₂ := by
  cases h with
  | item l r closed h => exact ⟨l, _, _, r, closed, rfl, rfl, h⟩
  | permuted _ _ hp | unknown _ _ _ hp => cases hp
  | renamed _ _ _ hAsks | null _ _ _ hAsks | inside _ _ _ hAsks => cases hAsks

/-! ## Spellings one change apart -/

/-- The same outline, or one change away in one or the other direction. -/
def Respelled (p : Pattern) (n : Nat) (o o' : Outline) : Prop :=
  o' = o ∨ Change p n o o' ∨ Change p n o' o

namespace Respelled

theorem refl (p : Pattern) (n : Nat) (o : Outline) : Respelled p n o o := .inl rfl

theorem symm (h : Respelled p n o o') : Respelled p n o' o := Or.imp Eq.symm Or.symm h

theorem isWhole_iff (h : Respelled p n o o') : o'.isWhole = true ↔ o.isWhole = true := by
  rcases h with rfl | h | h
  · rfl
  · exact h.isWhole_iff
  · exact h.isWhole_iff.symm

theorem isSome_value?_iff (h : Respelled p n o o') :
    (o'.value? n).isSome = true ↔ (o.value? n).isSome = true := by
  rcases h with rfl | h | h
  · rfl
  · exact h.isSome_value?_iff
  · exact h.isSome_value?_iff.symm

theorem eq_of_plain (h : Respelled .plain n o o') : o' = o := by
  rcases h with h | h | h
  · exact h
  · exact absurd h not_change_plain
  · exact absurd h not_change_plain

end Respelled

end Outline

end AssetShell
