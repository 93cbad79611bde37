import AssetShell.Named
import Mathlib.Data.List.Basic

/-!
# Named things in order

Putting entries in the order of their names keeps all of them and looks at no more than the names.
-/

namespace AssetShell

namespace Named

variable {α β : Type}

theorem insertSorted_perm (name : String) (a : α) (l : Named α) :
    (insertSorted name a l).Perm ((name, a) :: l) := by
  induction l with
  | nil => rfl
  | cons entry r ih =>
    obtain ⟨other, b⟩ := entry
    simp only [insertSorted]
    split
    · exact (ih.cons (other, b)).trans (.swap (name, a) (other, b) r)
    · rfl

theorem sorted_perm (l : Named α) : (sorted l).Perm l := by
  induction l with
  | nil => rfl
  | cons entry r ih =>
    obtain ⟨name, a⟩ := entry
    exact (insertSorted_perm name a (sorted r)).trans (ih.cons (name, a))

theorem insertSorted_map (f : α → β) (name : String) (a : α) (l : Named α) :
    insertSorted name (f a) (l.map (Prod.map id f)) =
      (insertSorted name a l).map (Prod.map id f) := by
  induction l with
  | nil => rfl
  | cons entry r ih =>
    obtain ⟨other, b⟩ := entry
    simp only [List.map_cons, Prod.map_apply, id_eq, insertSorted]
    split
    · rw [ih, List.map_cons, Prod.map_apply, id_eq]
    · rw [List.map_cons, List.map_cons, Prod.map_apply, Prod.map_apply, id_eq, id_eq]

theorem sorted_map (f : α → β) (l : Named α) :
    sorted (l.map (Prod.map id f)) = (sorted l).map (Prod.map id f) := by
  induction l with
  | nil => rfl
  | cons entry r ih =>
    obtain ⟨name, a⟩ := entry
    rw [List.map_cons, Prod.map_apply, id_eq, sorted, ih, insertSorted_map, sorted]

end Named

end AssetShell
