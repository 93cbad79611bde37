import Mathlib.Data.List.Forall2

/-!
# Outcomes

A step that succeeds behind another one says that both succeeded. A list is mapped by a partial
function if each of its items is; otherwise the first item that fails decides the fault.
-/

namespace AssetShell

section Steps

variable {ε α β : Type} {x : Except ε α} {b : β}

theorem exists_of_bind_eq_ok {f : α → Except ε β} (h : x.bind f = .ok b) :
    ∃ a, x = .ok a ∧ f a = .ok b := by
  cases x with
  | error e => cases h
  | ok a => exact ⟨a, rfl, h⟩

theorem exists_of_map_eq_ok {f : α → β} (h : x.map f = .ok b) : ∃ a, x = .ok a ∧ f a = b := by
  cases x with
  | error e => cases h
  | ok a => exact ⟨a, rfl, Except.ok.inj h⟩

theorem map_eq_error_iff {f : α → β} {e : ε} : x.map f = .error e ↔ x = .error e := by
  cases x <;> simp [Except.map]

/-- The fault of a step that fails. -/
def faultOf? : Except ε α → Option ε
  | .error e => some e
  | .ok _ => none

theorem faultOf?_eq_some_iff {e : ε} : faultOf? x = some e ↔ x = .error e := by
  cases x <;> simp [faultOf?]

theorem faultOf?_eq_none_iff : faultOf? x = none ↔ ∃ a, x = .ok a := by
  cases x <;> simp [faultOf?]

end Steps

theorem exists_of_forall₂ {α β : Type*} {p : α → β → Prop} {as : List α} {bs : List β}
    (h : List.Forall₂ p as bs) {b : β} (hb : b ∈ bs) : ∃ a ∈ as, p a b := by
  obtain ⟨i, hi, rfl⟩ := List.getElem_of_mem hb
  have hLength : i < as.length := h.length_eq ▸ hi
  exact ⟨as[i], List.getElem_mem hLength, h.get hLength hi⟩

section Lists

variable {ε α β : Type} {f : α → Except ε β} {as : List α} {bs : List β}

theorem mapM_eq_ok_iff : as.mapM f = .ok bs ↔ List.Forall₂ (fun a b => f a = .ok b) as bs := by
  induction as generalizing bs with
  | nil =>
    rw [List.mapM_nil, List.forall₂_nil_left_iff]
    exact ⟨fun h => by cases h; rfl, fun h => by rw [h]; rfl⟩
  | cons a r ih =>
    rw [List.mapM_cons, List.forall₂_cons_left_iff]
    constructor
    · intro h
      obtain ⟨b, ha, h⟩ := exists_of_bind_eq_ok h
      obtain ⟨bs, hr, h⟩ := exists_of_bind_eq_ok h
      cases h
      exact ⟨b, bs, ha, ih.mp hr, rfl⟩
    · rintro ⟨b, bs, ha, hr, rfl⟩
      rw [ha, ih.mpr hr]
      rfl

theorem exists_of_mapM_eq_ok (h : as.mapM f = .ok bs) {b : β} (hb : b ∈ bs) :
    ∃ a ∈ as, f a = .ok b :=
  exists_of_forall₂ (mapM_eq_ok_iff.mp h) hb

/-- The first item that fails decides the fault. -/
theorem faultOf?_mapM (f : α → Except ε β) (as : List α) :
    faultOf? (as.mapM f) = as.findSome? fun a => faultOf? (f a) := by
  induction as with
  | nil => rfl
  | cons a r ih =>
    rw [List.mapM_cons, List.findSome?_cons]
    cases f a with
    | error e => rfl
    | ok b =>
      change faultOf? ((r.mapM f).bind _) = r.findSome? _
      rw [← ih]
      cases r.mapM f <;> rfl

/-- Lists whose items give the same in pairs find the same first. -/
theorem findSome?_eq_of_forall₂ {γ : Type} {p : α → Option γ} {q : β → Option γ}
    (h : List.Forall₂ (fun a b => p a = q b) as bs) : as.findSome? p = bs.findSome? q := by
  induction h with
  | nil => rfl
  | cons hFirst _ ih => rw [List.findSome?_cons, List.findSome?_cons, hFirst, ih]

end Lists

end AssetShell
