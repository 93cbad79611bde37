import Mathlib.Data.List.TakeDrop
import Mathlib.Data.List.TakeWhile

/-!
# Cutting a text where a class of characters ends

The longest part in front whose characters all belong to a class, and what follows it.
-/

namespace AssetShell

variable {p : Char → Bool} {cs front r : List Char}

theorem span_eq_iff :
    cs.span p = (front, r) ↔
      cs = front ++ r ∧ (∀ c ∈ front, p c = true) ∧ ∀ c ∈ r.head?, p c = false := by
  rw [List.span_eq_takeWhile_dropWhile, Prod.mk.injEq]
  constructor
  · rintro ⟨rfl, rfl⟩
    refine ⟨List.takeWhile_append_dropWhile.symm, fun c => List.mem_takeWhile_imp, ?_⟩
    intro c hc
    have hHead := List.head?_dropWhile_not p cs
    rw [Option.mem_def.mp hc] at hHead
    exact hHead
  · rintro ⟨rfl, hFront, hStop⟩
    have hEnd : r.takeWhile p = [] ∧ r.dropWhile p = r := by
      cases r with
      | nil => exact ⟨rfl, rfl⟩
      | cons c tail => simp [hStop c rfl]
    rw [List.takeWhile_append_of_pos hFront, List.dropWhile_append_of_pos hFront, hEnd.1, hEnd.2,
      List.append_nil]
    exact ⟨rfl, rfl⟩

theorem span_append (h : ∀ c ∈ front, p c = true) (hStop : ∀ c ∈ r.head?, p c = false) :
    (front ++ r).span p = (front, r) :=
  span_eq_iff.mpr ⟨rfl, h, hStop⟩

/-- What follows a text is not looked at if the class does not go on there. -/
theorem span_append_behind {behind : List Char} (h : cs.span p = (front, r))
    (hStop : ∀ c ∈ behind.head?, p c = false) : (cs ++ behind).span p = (front, r ++ behind) := by
  obtain ⟨rfl, hFront, hRest⟩ := span_eq_iff.mp h
  rw [List.append_assoc]
  refine span_append hFront fun c hc => ?_
  cases r with
  | nil => exact hStop c hc
  | cons d tail => exact hRest c hc

end AssetShell
