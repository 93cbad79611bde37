import AssetShell.Json.Outline
import Mathlib.Data.List.Forall2

/-!
# Values of outlines

An outline has a value if all its parts have values. What has a value kept to the form all through.
The value of a text is the canonical form of that of its outline.
-/

namespace AssetShell

namespace Outline

variable {levels : Nat} {o : Outline} {v : Json}

/-! ## Parts -/

def HasMember (levels : Nat) (m : Option String × Outline) (w : String × Json) : Prop :=
  m.1 = some w.1 ∧ m.2.value? levels = some w.2

theorem values?_eq_some_iff {os : List Outline} {vs : List Json} :
    values? levels os = some vs ↔ List.Forall₂ (fun o v => o.value? levels = some v) os vs := by
  induction os generalizing vs with
  | nil => simp [values?, eq_comm]
  | cons o r ih =>
    rw [values?, List.forall₂_cons_left_iff]
    constructor
    · intro h
      split at h
      · rename_i w ws hFirst hRest
        cases h
        exact ⟨w, ws, hFirst, ih.mp hRest, rfl⟩
      · cases h
    · rintro ⟨w, ws, hFirst, hRest, rfl⟩
      rw [hFirst, ih.mpr hRest]

theorem memberValues?_eq_some_iff {ms : List (Option String × Outline)}
    {ws : List (String × Json)} :
    memberValues? levels ms = some ws ↔ List.Forall₂ (HasMember levels) ms ws := by
  induction ms generalizing ws with
  | nil => simp [memberValues?, eq_comm]
  | cons m r ih =>
    obtain ⟨name, o⟩ := m
    rw [List.forall₂_cons_left_iff]
    constructor
    · intro h
      simp only [memberValues?] at h
      split at h
      · rename_i name w ws hFirst hRest
        cases h
        exact ⟨(name, w), ws, ⟨rfl, hFirst⟩, ih.mp hRest, rfl⟩
      · cases h
    · rintro ⟨w, ws, ⟨hName, hFirst⟩, hRest, rfl⟩
      simp only at hName hFirst
      simp only [memberValues?, hName, hFirst, ih.mpr hRest]

theorem value?_array {os : List Outline} {closed : Bool} :
    value? levels (.array os closed) = some v ↔
      closed = true ∧ 0 < levels ∧
        ∃ vs, v = .array vs ∧ List.Forall₂ (fun o v => o.value? (levels - 1) = some v) os vs := by
  rw [value?]
  split
  · rename_i hOpen
    simp only [Option.map_eq_some_iff, values?_eq_some_iff, hOpen, true_and]
    exact exists_congr fun vs => and_comm.trans (and_congr_left' eq_comm)
  · rename_i hShut
    simp only [reduceCtorEq, false_iff]
    exact fun h => hShut ⟨h.1, h.2.1⟩

theorem value?_object {ms : List (Option String × Outline)} {closed : Bool} :
    value? levels (.object ms closed) = some v ↔
      closed = true ∧ 0 < levels ∧
        ∃ ws, v = .object ws ∧ List.Forall₂ (HasMember (levels - 1)) ms ws := by
  rw [value?]
  split
  · rename_i hOpen
    simp only [Option.map_eq_some_iff, memberValues?_eq_some_iff, hOpen, true_and]
    exact exists_congr fun ws => and_comm.trans (and_congr_left' eq_comm)
  · rename_i hShut
    simp only [reduceCtorEq, false_iff]
    exact fun h => hShut ⟨h.1, h.2.1⟩

theorem isSome_values?_iff {os : List Outline} :
    (values? levels os).isSome = true ↔ ∀ o ∈ os, (o.value? levels).isSome = true := by
  induction os with
  | nil => simp [values?]
  | cons o r ih =>
    rw [values?, List.forall_mem_cons, ← ih]
    cases o.value? levels <;> cases values? levels r <;> simp

theorem isSome_memberValues?_iff {ms : List (Option String × Outline)} :
    (memberValues? levels ms).isSome = true ↔
      ∀ m ∈ ms, m.1.isSome = true ∧ (m.2.value? levels).isSome = true := by
  induction ms with
  | nil => simp [memberValues?]
  | cons m r ih =>
    obtain ⟨name, o⟩ := m
    rw [List.forall_mem_cons, ← ih]
    simp only [memberValues?]
    cases name <;> cases o.value? levels <;> cases memberValues? levels r <;> simp

theorem isSome_value?_array {os : List Outline} {closed : Bool} :
    ((Outline.array os closed).value? levels).isSome = true ↔
      closed = true ∧ 0 < levels ∧ ∀ o ∈ os, (o.value? (levels - 1)).isSome = true := by
  rw [value?, ← isSome_values?_iff, ← and_assoc]
  split <;> simp_all

theorem isSome_value?_object {ms : List (Option String × Outline)} {closed : Bool} :
    ((Outline.object ms closed).value? levels).isSome = true ↔
      closed = true ∧ 0 < levels ∧
        ∀ m ∈ ms, m.1.isSome = true ∧ (m.2.value? (levels - 1)).isSome = true := by
  rw [value?, ← isSome_memberValues?_iff, ← and_assoc]
  split <;> simp_all

/-! ## Outlines of a value -/

theorem eq_null_of_value? (h : o.value? levels = some .null) : o = .null := by
  cases o with
  | null => rfl
  | array os closed => obtain ⟨-, -, _, hValue, -⟩ := value?_array.mp h; cases hValue
  | object ms closed => obtain ⟨-, -, _, hValue, -⟩ := value?_object.mp h; cases hValue
  | _ => simp [value?] at h

theorem eq_string_of_value? {s : String} (h : o.value? levels = some (.string s)) :
    o = .string (some s) := by
  cases o with
  | string t =>
    obtain ⟨_, rfl, hSame⟩ := Option.map_eq_some_iff.mp h
    rw [Json.string.inj hSame]
  | array os closed => obtain ⟨-, -, _, hValue, -⟩ := value?_array.mp h; cases hValue
  | object ms closed => obtain ⟨-, -, _, hValue, -⟩ := value?_object.mp h; cases hValue
  | _ => simp [value?] at h

theorem eq_array_of_value? {vs : List Json} (h : o.value? levels = some (.array vs)) :
    ∃ os, o = .array os true ∧ 0 < levels ∧
      List.Forall₂ (fun o v => o.value? (levels - 1) = some v) os vs := by
  cases o with
  | array os closed =>
    obtain ⟨rfl, hLevels, _, hValue, hItems⟩ := value?_array.mp h
    cases hValue
    exact ⟨os, rfl, hLevels, hItems⟩
  | object ms closed => obtain ⟨-, -, _, hValue, -⟩ := value?_object.mp h; cases hValue
  | _ => simp [value?] at h

theorem eq_object_of_value? {ws : List (String × Json)} (h : o.value? levels = some (.object ws)) :
    ∃ ms, o = .object ms true ∧ 0 < levels ∧ List.Forall₂ (HasMember (levels - 1)) ms ws := by
  cases o with
  | array os closed => obtain ⟨-, -, _, hValue, -⟩ := value?_array.mp h; cases hValue
  | object ms closed =>
    obtain ⟨rfl, hLevels, _, hValue, hMembers⟩ := value?_object.mp h
    cases hValue
    exact ⟨ms, rfl, hLevels, hMembers⟩
  | _ => simp [value?] at h

/-! ## Whole outlines -/

theorem areWhole_iff {os : List Outline} : areWhole os = true ↔ ∀ o ∈ os, o.isWhole = true := by
  induction os with
  | nil => simp [areWhole]
  | cons o r ih => rw [areWhole, Bool.and_eq_true, ih, List.forall_mem_cons]

theorem membersAreWhole_iff {ms : List (Option String × Outline)} :
    membersAreWhole ms = true ↔ ∀ m ∈ ms, m.2.isWhole = true := by
  induction ms with
  | nil => simp [membersAreWhole]
  | cons m r ih => rw [membersAreWhole, Bool.and_eq_true, ih, List.forall_mem_cons]

theorem isWhole_array {os : List Outline} {closed : Bool} :
    (Outline.array os closed).isWhole = true ↔ closed = true ∧ ∀ o ∈ os, o.isWhole = true := by
  rw [isWhole, Bool.and_eq_true, areWhole_iff]

theorem isWhole_object {ms : List (Option String × Outline)} {closed : Bool} :
    (Outline.object ms closed).isWhole = true ↔ closed = true ∧ ∀ m ∈ ms, m.2.isWhole = true := by
  rw [isWhole, Bool.and_eq_true, membersAreWhole_iff]

theorem isWhole_of_value? (h : o.value? levels = some v) : o.isWhole = true := by
  induction levels generalizing o v with
  | zero =>
    cases o with
    | array os closed => exact absurd (value?_array.mp h).2.1 (Nat.lt_irrefl 0)
    | object ms closed => exact absurd (value?_object.mp h).2.1 (Nat.lt_irrefl 0)
    | broken => rw [value?] at h; cases h
    | _ => rfl
  | succ levels ih =>
    cases o with
    | array os closed =>
      obtain ⟨rfl, -, vs, -, hItems⟩ := value?_array.mp h
      have hWhole := hItems.imp fun o v hv => And.intro (ih hv) hv
      exact isWhole_array.mpr ⟨rfl, ((List.forall₂_and_left os vs).mp hWhole).1⟩
    | object ms closed =>
      obtain ⟨rfl, -, ws, -, hMembers⟩ := value?_object.mp h
      have hWhole := hMembers.imp fun m w hm => And.intro (ih hm.2) hm
      exact isWhole_object.mpr ⟨rfl, ((List.forall₂_and_left ms ws).mp hWhole).1⟩
    | broken => rw [value?] at h; cases h
    | _ => rfl

end Outline

/-! ## Values of texts -/

namespace Json

/-- The value of a text with the members of its objects as they stand there. -/
def rawOfText? (s : String) : Option Json :=
  let (outline, alone) := Outline.ofText s
  if alone then outline.value? maxLevels else none

theorem ofText?_eq_map_rawOfText? (s : String) : ofText? s = (rawOfText? s).map canonical := by
  simp only [ofText?, rawOfText?]
  split <;> rfl

end Json

end AssetShell
