import AssetShell.Text.Split

/-!
# Cutting joined texts

Cutting at a mark takes a joined text apart again.
-/

namespace AssetShell

/-- The pieces of a joined text are what was joined. -/
theorem splitText_intercalate {xs : List String} (h : xs ≠ []) {mark : Char}
    (hMark : ∀ x ∈ xs, mark ∉ x.toList) :
    splitText mark ((String.singleton mark).intercalate xs) = xs := by
  have hPieces : ∀ piece ∈ xs.map String.toList, mark ∉ piece := by
    intro piece hPiece
    obtain ⟨x, hx, rfl⟩ := List.mem_map.mp hPiece
    exact hMark x hx
  rw [splitText, String.toList_intercalate, String.toList_singleton,
    List.splitOn_intercalate mark hPieces (mt List.map_eq_nil_iff.mp h), List.map_map]
  exact List.map_id'' (fun x => String.ofList_toList) xs

/-- Where several texts are joined the mark occurs. -/
theorem mem_toList_intercalate (mark : Char) (x y : String) (r : List String) :
    mark ∈ ((String.singleton mark).intercalate (x :: y :: r)).toList := by
  rw [String.toList_intercalate, String.toList_singleton, List.map_cons, List.map_cons,
    List.intercalate_cons_cons]
  exact List.mem_append_left _ (List.mem_append_right _ (List.mem_singleton_self mark))

end AssetShell
