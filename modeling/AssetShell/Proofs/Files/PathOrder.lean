import AssetShell.Proofs.Files.Walk
import AssetShell.Proofs.Text.ByteOrder
import Mathlib.Data.List.Sort

/-!
# The order of a walk

A walk meets the entries of one folder in the order of their names, and all that stands under an
entry before it meets the next one. So what it meets besides folders is in order throughout: name by
name, and names byte by byte. What a tree shows does not depend on the order in which folders list their
entries.
-/

namespace AssetShell

/-! ## Entries of one folder -/

namespace Named

variable {α : Type} {l : Named α}

theorem insertSorted_pairwise (name : String) (a : α) (h : l.Pairwise fun x y => x.1 ≤ y.1) :
    (insertSorted name a l).Pairwise fun x y => x.1 ≤ y.1 := by
  induction l with
  | nil => exact List.pairwise_singleton _ _
  | cons entry r ih =>
    obtain ⟨other, b⟩ := entry
    obtain ⟨hFirst, hRest⟩ := List.pairwise_cons.mp h
    rw [insertSorted]
    split
    · rename_i hLt
      refine List.pairwise_cons.mpr ⟨?_, ih hRest⟩
      intro x hx
      rcases List.mem_cons.mp ((insertSorted_perm name a r).mem_iff.mp hx) with rfl | hx
      · exact hLt.le
      · exact hFirst x hx
    · rename_i hNotLt
      have hLe : name ≤ other := not_lt.mp hNotLt
      refine List.pairwise_cons.mpr ⟨?_, h⟩
      intro x hx
      rcases List.mem_cons.mp hx with rfl | hx
      · exact hLe
      · exact hLe.trans (hFirst x hx)

theorem sorted_pairwise (l : Named α) : (sorted l).Pairwise fun x y => x.1 ≤ y.1 := by
  induction l with
  | nil => exact List.Pairwise.nil
  | cons entry r ih => exact insertSorted_pairwise entry.1 entry.2 ih

theorem sorted_pairwise_lt (h : (l.map Prod.fst).Nodup) :
    (sorted l).Pairwise fun x y => x.1 < y.1 := by
  have hNodup : ((sorted l).map Prod.fst).Nodup := ((sorted_perm l).map Prod.fst).nodup_iff.mpr h
  refine ((sorted_pairwise l).and (List.pairwise_map.mp hNodup)).imp ?_
  rintro x y ⟨hLe, hNe⟩
  exact lt_of_le_of_ne hLe hNe

end Named

/-! ## Places in order -/

/-- One place comes before another: their names are compared one by one, and two names by their
bytes. -/
def Precedes (p q : List String) : Prop := p.map utf8Bytes < q.map utf8Bytes

namespace Precedes

variable {p q r : List String}

theorem irrefl (p : List String) : ¬ Precedes p p := List.lt_irrefl _

theorem asymm (h : Precedes p q) : ¬ Precedes q p := List.lt_asymm h

theorem ne (h : Precedes p q) : p ≠ q := by
  rintro rfl
  exact irrefl p h

/-- Two places part at the names of two entries of one folder. -/
theorem of_name_lt {name other : String} (h : name < other) (place p q : List String) :
    Precedes (place ++ name :: p) (place ++ other :: q) := by
  rw [Precedes, List.map_append, List.map_append, List.map_cons, List.map_cons]
  apply List.append_left_lt
  exact List.cons_lt_cons_iff.mpr (.inl (utf8Bytes_lt_iff.mpr h))

end Precedes

/-- Of what is no folder, one thing is met at an earlier place than another. -/
def Found.Before (f g : Found) : Prop := f.sight = .folder ∨ Precedes f.path g.path

namespace Entry

variable {e other : Entry}

theorem before_of_walkChild {ignored : List String → Bool} {place : List String}
    {a b : String × Entry} (h : a.1 < b.1) {f g : Found} (hf : f ∈ walkChild ignored place a)
    (hg : g ∈ walkChild ignored place b) : f.Before g := by
  obtain ⟨_, hPath⟩ := exists_path_of_mem_walkChild hf
  obtain ⟨_, hOther⟩ := exists_path_of_mem_walkChild hg
  right
  rw [hPath, hOther]
  exact Precedes.of_name_lt h place _ _

theorem walk_in_order (ignored : List String → Bool) (h : e.DistinctNames) (place : List String) :
    (walk ignored place e).Pairwise Found.Before := by
  induction h generalizing place with
  | file => exact List.pairwise_singleton _ _
  | closedFile => exact List.pairwise_singleton _ _
  | closedFolder => exact List.pairwise_pair.mpr (.inl rfl)
  | @folder children hNames _ ih =>
    rw [walk, walkAll_eq_map]
    generalize hFound : (children.map fun child => (child.1, walkChild ignored place child)) = found
    have hOrigin : ∀ x ∈ Named.sorted found,
        ∃ child ∈ children, (child.1, walkChild ignored place child) = x := by
      intro x hx
      rw [← hFound] at hx
      exact List.mem_map.mp ((Named.sorted_perm _).mem_iff.mp hx)
    refine List.pairwise_cons.mpr ⟨fun _ _ => .inl rfl, List.pairwise_flatMap.mpr ⟨?_, ?_⟩⟩
    · intro x hx
      obtain ⟨child, hChild, rfl⟩ := hOrigin x hx
      simp only [walkChild]
      split
      · exact List.Pairwise.nil
      · exact ih child hChild (place ++ [child.1])
    · have hNodup : (found.map Prod.fst).Nodup := by
        rw [← hFound, List.map_map]
        exact hNames
      refine (Named.sorted_pairwise_lt hNodup).imp_of_mem ?_
      intro x y hx hy hLt f hf g hg
      obtain ⟨a, -, rfl⟩ := hOrigin x hx
      obtain ⟨b, -, rfl⟩ := hOrigin y hy
      exact before_of_walkChild hLt hf hg

/-! ## Other orders of listing -/

/-- The same tree, the entries of whose folders are listed in another order. -/
inductive Relisted : Entry → Entry → Prop
  | refl (e : Entry) : Relisted e e
  | here {children others : List (String × Entry)} (h : children.Perm others) :
    Relisted (.folder children) (.folder others)
  | inside {e other : Entry} (before : List (String × Entry)) (name : String)
    (after : List (String × Entry)) (h : Relisted e other) :
    Relisted (.folder (before ++ (name, e) :: after)) (.folder (before ++ (name, other) :: after))
  | trans {a b c : Entry} (hFirst : Relisted a b) (hSecond : Relisted b c) : Relisted a c

theorem Relisted.shows_iff (h : Relisted e other) {path : List String} {sight : Sight} :
    e.Shows path sight ↔ other.Shows path sight := by
  induction h generalizing path with
  | refl => exact Iff.rfl
  | here h =>
    rw [shows_folder_iff, shows_folder_iff]
    exact or_congr_right (exists_congr fun child => and_congr_left' h.mem_iff)
  | inside before name after _ ih =>
    rw [shows_folder_iff, shows_folder_iff]
    simp only [List.mem_append, List.mem_cons, or_and_right, exists_or, exists_eq_left, ih]
  | trans _ _ ihFirst ihSecond => exact ihFirst.trans ihSecond

theorem Relisted.distinctNames (h : Relisted e other) (hDistinct : e.DistinctNames) :
    other.DistinctNames := by
  induction h with
  | refl => exact hDistinct
  | here h =>
    obtain ⟨⟩ | ⟨⟩ | ⟨⟩ | ⟨hNames, hEach⟩ := hDistinct
    exact .folder ((h.map Prod.fst).nodup_iff.mp hNames) fun child hChild =>
      hEach child (h.mem_iff.mpr hChild)
  | inside before name after _ ih =>
    obtain ⟨⟩ | ⟨⟩ | ⟨⟩ | ⟨hNames, hEach⟩ := hDistinct
    refine .folder ?_ ?_
    · rw [List.map_append, List.map_cons] at hNames ⊢
      exact hNames
    · rw [List.forall_mem_append, List.forall_mem_cons] at hEach ⊢
      exact ⟨hEach.1, ih hEach.2.1, hEach.2.2⟩
  | trans _ _ ihFirst ihSecond => exact ihSecond (ihFirst hDistinct)

end Entry

end AssetShell
