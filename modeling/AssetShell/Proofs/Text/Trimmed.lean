import AssetShell.Text.Blank
import Mathlib.Data.List.DropRight

/-!
# Trimming

Trimming takes white space away at both ends of a text and nothing else, so a word is left of a text
if and only if the text is the word between white space.
-/

namespace AssetShell

variable {cs before word after : List Char}

theorem trimmed_eq_rdropWhile (cs : List Char) :
    trimmed cs = (cs.dropWhile isWhiteSpace).rdropWhile isWhiteSpace := rfl

theorem exists_blank_around_trimmed (cs : List Char) :
    ∃ before after, cs = before ++ trimmed cs ++ after ∧
      (∀ c ∈ before, isWhiteSpace c = true) ∧ ∀ c ∈ after, isWhiteSpace c = true := by
  refine ⟨cs.takeWhile isWhiteSpace, (cs.dropWhile isWhiteSpace).rtakeWhile isWhiteSpace, ?_,
    fun c => List.mem_takeWhile_imp, fun c => List.mem_rtakeWhile_imp⟩
  rw [trimmed_eq_rdropWhile, List.append_assoc, List.rdropWhile_append_rtakeWhile,
    List.takeWhile_append_dropWhile]

theorem dropWhile_of_no_blank (hWord : ∀ c ∈ word, isWhiteSpace c = false) :
    word.dropWhile isWhiteSpace = word := by
  cases word with
  | nil => rfl
  | cons c r => exact List.dropWhile_cons_of_neg (Bool.eq_false_iff.mp (hWord c List.mem_cons_self))

theorem trimmed_append (hBefore : ∀ c ∈ before, isWhiteSpace c = true)
    (hWord : ∀ c ∈ word, isWhiteSpace c = false) (hAfter : ∀ c ∈ after, isWhiteSpace c = true) :
    trimmed (before ++ word ++ after) = word := by
  cases word with
  | nil =>
    have hAll : ∀ c ∈ before ++ [] ++ after, isWhiteSpace c = true := by
      rw [List.append_nil]
      exact List.forall_mem_append.mpr ⟨hBefore, hAfter⟩
    rw [trimmed_eq_rdropWhile, List.dropWhile_eq_nil_iff.mpr hAll, List.rdropWhile_nil]
  | cons c r =>
    have hFirst : ¬ isWhiteSpace c = true := Bool.eq_false_iff.mp (hWord c List.mem_cons_self)
    have hReverse : ∀ d ∈ (c :: r).reverse, isWhiteSpace d = false :=
      fun d hd => hWord d (List.mem_reverse.mp hd)
    have hBlank : ∀ d ∈ after.reverse, isWhiteSpace d = true :=
      fun d hd => hAfter d (List.mem_reverse.mp hd)
    have hFront : (before ++ (c :: r) ++ after).dropWhile isWhiteSpace = c :: r ++ after := by
      rw [List.append_assoc, List.dropWhile_append_of_pos hBefore, List.cons_append,
        List.dropWhile_cons_of_neg hFirst]
    rw [trimmed, hFront, List.reverse_append, List.dropWhile_append_of_pos hBlank,
      dropWhile_of_no_blank hReverse, List.reverse_reverse]

theorem trimmed_eq_iff (hWord : ∀ c ∈ word, isWhiteSpace c = false) :
    trimmed cs = word ↔ ∃ before after, cs = before ++ word ++ after ∧
      (∀ c ∈ before, isWhiteSpace c = true) ∧ ∀ c ∈ after, isWhiteSpace c = true := by
  constructor
  · rintro rfl
    exact exists_blank_around_trimmed cs
  · rintro ⟨before, after, rfl, hBefore, hAfter⟩
    exact trimmed_append hBefore hWord hAfter

theorem trimmed_eq_self (hWord : ∀ c ∈ word, isWhiteSpace c = false) : trimmed word = word := by
  refine (trimmed_eq_iff hWord).mpr ⟨[], [], (List.append_nil word).symm, ?_, ?_⟩
  · exact fun _ h => absurd h List.not_mem_nil
  · exact fun _ h => absurd h List.not_mem_nil

end AssetShell
