import Mathlib.Order.WellFounded

/-!
# Rules asked in a fixed order

A check that reports one fault reports the first of all faults in the order of its rules. Checks that
are asked one after the other do so together if each of them does.
-/

namespace AssetShell

/-- The option holds the least member of `P` in the order of `rank`, whenever `P` has members. -/
def Selects {α : Type} (rank : α → Nat) (P : α → Prop) (o : Option α) : Prop :=
  ∀ a, o = some a ↔ P a ∧ ∀ b, P b → rank a ≤ rank b

namespace Selects

variable {α : Type} {rank : α → Nat} {P Q : α → Prop} {a b : Option α}

theorem of_eq_some_iff (h : ∀ x, a = some x ↔ P x) : Selects rank P a := by
  intro x
  rw [h]
  refine ⟨fun hx => ⟨hx, fun y hy => ?_⟩, And.left⟩
  have hxy := ((h x).mpr hx).symm.trans ((h y).mpr hy)
  exact le_of_eq (congrArg rank (Option.some.inj hxy))

theorem congr (h : Selects rank P a) (hPQ : ∀ x, P x ↔ Q x) : Selects rank Q a := by
  obtain rfl : P = Q := funext fun x => propext (hPQ x)
  exact h

theorem eq_none_iff (h : Selects rank P a) : a = none ↔ ∀ x, ¬ P x := by
  constructor
  · rintro rfl x hx
    obtain ⟨m, hm, hLeast⟩ := (measure rank).wf.has_min {y | P y} ⟨x, hx⟩
    have := (h m).mpr ⟨hm, fun y hy => Nat.le_of_not_lt (hLeast y hy)⟩
    cases this
  · intro hAll
    refine Option.eq_none_iff_forall_ne_some.mpr fun x hx => ?_
    exact hAll x ((h x).mp hx).1

theorem none (rank : α → Nat) : Selects rank (fun _ => False) Option.none :=
  of_eq_some_iff fun x => by simp

/-- Of two rules, the second is asked if the first one holds. -/
theorem or (ha : Selects rank P a) (hb : Selects rank Q b)
    (hLt : ∀ x y, P x → Q y → rank x < rank y) :
    Selects rank (fun x => P x ∨ Q x) (a.or b) := by
  intro x
  rw [Option.or_eq_some_iff, ha.eq_none_iff, ha x, hb x]
  constructor
  · rintro (⟨hx, hLeast⟩ | ⟨hNone, hx, hLeast⟩)
    · refine ⟨.inl hx, ?_⟩
      rintro y (hy | hy)
      · exact hLeast y hy
      · exact (hLt x y hx hy).le
    · refine ⟨.inr hx, ?_⟩
      rintro y (hy | hy)
      · exact absurd hy (hNone y)
      · exact hLeast y hy
  · rintro ⟨hx | hx, hLeast⟩
    · exact .inl ⟨hx, fun y hy => hLeast y (.inl hy)⟩
    · refine .inr ⟨fun y hy => ?_, hx, fun y hy => hLeast y (.inr hy)⟩
      exact absurd (hLeast y (.inl hy)) (Nat.not_le_of_lt (hLt y x hy hx))

/-- A rule with one possible fault is asked before the others. -/
theorem guard {p : Prop} [Decidable p] {x : α} (hb : Selects rank Q b)
    (hLt : ∀ y, Q y → rank x < rank y) :
    Selects rank (fun y => (p ∧ y = x) ∨ Q y) (if p then some x else b) := by
  have hFirst : Selects rank (fun y => p ∧ y = x) (if p then some x else Option.none) :=
    of_eq_some_iff fun y => by by_cases hp : p <;> simp [hp, eq_comm]
  have hBoth := hFirst.or hb fun y z ⟨_, hy⟩ hz => hy ▸ hLt z hz
  by_cases hp : p
  · simpa [hp] using hBoth
  · simpa [hp] using hBoth

end Selects

end AssetShell
