import AssetShell.Json.Outline
import AssetShell.Json.Printer
import Mathlib.Tactic.IntervalCases

/-!
# Tokens of printed text

Blanks between tokens do not count, each mark is a token of its own, and a string that was printed
with escapes is read as the string it was.
-/

namespace AssetShell

namespace Token

/-! ## Blanks and marks -/

variable {c : Char} {cs r rest : List Char} {t : Token}

theorem ofChars_of_dropWhile_nil (h : cs.dropWhile isBlank = []) : ofChars cs = [] := by
  rw [ofChars]
  split
  · rfl
  · rename_i hCons
    rw [h] at hCons
    cases hCons

theorem ofChars_of_dropWhile_cons (h : cs.dropWhile isBlank = c :: r)
    (hNext : next? (c :: r) = some (t, rest)) : ofChars cs = t :: ofChars rest := by
  rw [ofChars]
  split
  · rename_i hNil
    rw [h] at hNil
    cases hNil
  · rename_i hCons
    rw [h] at hCons
    cases hCons
    split
    · rename_i hNone
      rw [hNext] at hNone
      cases hNone
    · rename_i hSome
      rw [hNext] at hSome
      cases hSome
      rfl

theorem ofChars_of_dropWhile_stray (h : cs.dropWhile isBlank = c :: r)
    (hNext : next? (c :: r) = none) : ofChars cs = [.stray] := by
  rw [ofChars]
  split
  · rename_i hNil
    rw [h] at hNil
    cases hNil
  · rename_i hCons
    rw [h] at hCons
    cases hCons
    split
    · rfl
    · rename_i hSome
      rw [hNext] at hSome
      cases hSome

theorem ofChars_blank_append {blanks : List Char} (h : ∀ c ∈ blanks, isBlank c = true)
    (cs : List Char) : ofChars (blanks ++ cs) = ofChars cs := by
  have hDrop : (blanks ++ cs).dropWhile isBlank = cs.dropWhile isBlank :=
    List.dropWhile_append_of_pos h
  cases hCs : cs.dropWhile isBlank with
  | nil =>
    rw [ofChars_of_dropWhile_nil hCs, ofChars_of_dropWhile_nil (hDrop.trans hCs)]
  | cons c r =>
    cases hNext : next? (c :: r) with
    | none =>
      rw [ofChars_of_dropWhile_stray hCs hNext, ofChars_of_dropWhile_stray (hDrop.trans hCs) hNext]
    | some found =>
      obtain ⟨t, rest⟩ := found
      rw [ofChars_of_dropWhile_cons hCs hNext, ofChars_of_dropWhile_cons (hDrop.trans hCs) hNext]

theorem ofChars_of_next (hBlank : isBlank c = false) (hNext : next? (c :: r) = some (t, rest)) :
    ofChars (c :: r) = t :: ofChars rest := by
  refine ofChars_of_dropWhile_cons ?_ hNext
  rw [List.dropWhile_cons, hBlank]
  rfl

@[simp] theorem ofChars_openArray (r : List Char) : ofChars ('[' :: r) = .openArray :: ofChars r :=
  ofChars_of_next rfl rfl

@[simp] theorem ofChars_closeArray (r : List Char) :
    ofChars (']' :: r) = .closeArray :: ofChars r :=
  ofChars_of_next rfl rfl

@[simp] theorem ofChars_openObject (r : List Char) :
    ofChars ('\x7b' :: r) = .openObject :: ofChars r :=
  ofChars_of_next rfl rfl

@[simp] theorem ofChars_closeObject (r : List Char) :
    ofChars ('\x7d' :: r) = .closeObject :: ofChars r :=
  ofChars_of_next rfl rfl

@[simp] theorem ofChars_colon (r : List Char) : ofChars (':' :: r) = .colon :: ofChars r :=
  ofChars_of_next rfl rfl

@[simp] theorem ofChars_comma (r : List Char) : ofChars (',' :: r) = .comma :: ofChars r :=
  ofChars_of_next rfl rfl

theorem ofChars_true (r : List Char) : ofChars ("true".toList ++ r) = .bool true :: ofChars r :=
  ofChars_of_next rfl rfl

theorem ofChars_false (r : List Char) : ofChars ("false".toList ++ r) = .bool false :: ofChars r :=
  ofChars_of_next rfl rfl

/-! ## Strings -/

open Json (escapeChar stringChars)

/-- The units that are written as escapes are below the surrogates. -/
theorem unit?_hexDigit {n : Nat} (h : n < 32) :
    unit? '0' '0' (hexDigit (n / 16)) (hexDigit (n % 16)) = some n := by
  interval_cases n <;> rfl

/-- A unit that is no half of a pair is a character. -/
theorem assemble?_unit {n : Nat} (hHigh : isHighSurrogate n = false)
    (hLow : isLowSurrogate n = false) (pieces : List Piece) :
    assemble? (.unit n :: pieces) = (assemble? pieces).map (Char.ofNat n :: ·) := by
  cases pieces with
  | nil => simp [assemble?, hHigh, hLow]
  | cons piece r =>
    cases piece with
    | char c => simp [assemble?, hHigh, hLow]
    | unit m => simp [assemble?, hHigh, hLow]

/-- A character is printed with a mark of its own, by its number or as itself. -/
theorem escapeChar_cases (c : Char) :
    (∃ e, e ≠ 'u' ∧ escape? e = some c ∧ escapeChar c = ['\\', e]) ∨
      (c.toNat < 32 ∧ escapeChar c =
        ['\\', 'u', '0', '0', hexDigit (c.toNat / 16), hexDigit (c.toNat % 16)]) ∨
      (c ≠ '"' ∧ c ≠ '\\' ∧ ¬ c.toNat < 32 ∧ escapeChar c = [c]) := by
  by_cases hQuote : c = '"'
  · subst hQuote
    exact .inl ⟨'"', by decide, rfl, rfl⟩
  by_cases hBackslash : c = '\\'
  · subst hBackslash
    exact .inl ⟨'\\', by decide, rfl, rfl⟩
  by_cases hNewline : c = '\n'
  · subst hNewline
    exact .inl ⟨'n', by decide, rfl, rfl⟩
  by_cases hReturn : c = '\r'
  · subst hReturn
    exact .inl ⟨'r', by decide, rfl, rfl⟩
  by_cases hTab : c = '\t'
  · subst hTab
    exact .inl ⟨'t', by decide, rfl, rfl⟩
  by_cases hBackspace : c = '\x08'
  · subst hBackspace
    exact .inl ⟨'b', by decide, rfl, rfl⟩
  by_cases hFeed : c = '\x0c'
  · subst hFeed
    exact .inl ⟨'f', by decide, rfl, rfl⟩
  have hRest : escapeChar c = if c.toNat < 32 then
      ['\\', 'u', '0', '0', hexDigit (c.toNat / 16), hexDigit (c.toNat % 16)] else [c] := by
    simp [escapeChar, hQuote, hBackslash, hNewline, hReturn, hTab, hBackspace, hFeed]
  by_cases hControl : c.toNat < 32
  · exact .inr (.inl ⟨hControl, hRest.trans (if_pos hControl)⟩)
  · exact .inr (.inr ⟨hQuote, hBackslash, hControl, hRest.trans (if_neg hControl)⟩)

section Scan

variable {pieces : List Piece} (h : scanString r = some (pieces, rest))
include h

theorem scanString_plain (hQuote : c ≠ '"') (hEscape : c ≠ '\\') (hControl : ¬ c.toNat < 32) :
    scanString (c :: r) = some (.char c :: pieces, rest) := by
  rw [scanString]
  · rw [if_neg hControl, h]
  · exact hQuote
  · intro _ _ _ _ _ hc
    exact absurd hc hEscape
  · intro _ _ hc
    exact absurd hc hEscape

theorem scanString_escape {e d : Char} (hUnit : e ≠ 'u') (hEscape : escape? e = some d) :
    scanString ('\\' :: e :: r) = some (.char d :: pieces, rest) := by
  rw [scanString]
  · rw [hEscape, h]
  · intro _ _ _ _ _ he
    exact absurd he hUnit

theorem scanString_unit {n : Nat} {a b c d : Char} (hUnit : unit? a b c d = some n) :
    scanString ('\\' :: 'u' :: a :: b :: c :: d :: r) = some (.unit n :: pieces, rest) := by
  rw [scanString, hUnit, h]

/-- One printed character is read as one piece, whatever stands behind it. -/
theorem exists_piece (c : Char) :
    ∃ piece, scanString (escapeChar c ++ r) = some (piece :: pieces, rest) ∧
      assemble? (piece :: pieces) = (assemble? pieces).map (c :: ·) := by
  rcases escapeChar_cases c with ⟨e, hUnit, hEscape, hPrinted⟩ | ⟨hControl, hPrinted⟩ |
    ⟨hQuote, hBackslash, hControl, hPrinted⟩
  · rw [hPrinted]
    exact ⟨.char c, scanString_escape h hUnit hEscape, rfl⟩
  · rw [hPrinted]
    refine ⟨.unit c.toNat, scanString_unit h (unit?_hexDigit hControl), ?_⟩
    have hHigh : isHighSurrogate c.toNat = false := by
      simp only [isHighSurrogate, Bool.and_eq_false_iff, decide_eq_false_iff_not]
      omega
    have hLow : isLowSurrogate c.toNat = false := by
      simp only [isLowSurrogate, Bool.and_eq_false_iff, decide_eq_false_iff_not]
      omega
    rw [assemble?_unit hHigh hLow, Char.ofNat_toNat]
  · rw [hPrinted]
    exact ⟨.char c, scanString_plain h hQuote hBackslash hControl, rfl⟩

end Scan

theorem scanString_printed (cs rest : List Char) :
    ∃ pieces, scanString (cs.flatMap escapeChar ++ '"' :: rest) = some (pieces, rest) ∧
      assemble? pieces = some cs := by
  induction cs with
  | nil => exact ⟨[], rfl, rfl⟩
  | cons c r ih =>
    obtain ⟨pieces, hScan, hPieces⟩ := ih
    obtain ⟨piece, hFirst, hAll⟩ := exists_piece hScan c
    refine ⟨piece :: pieces, ?_, ?_⟩
    · rw [List.flatMap_cons, List.append_assoc]
      exact hFirst
    · rw [hAll, hPieces]
      rfl

theorem ofChars_stringChars (s : String) (rest : List Char) :
    ofChars (stringChars s ++ rest) = .string (some s) :: ofChars rest := by
  obtain ⟨pieces, hScan, hPieces⟩ := scanString_printed s.toList rest
  have hChars : stringChars s ++ rest = '"' :: (s.toList.flatMap escapeChar ++ '"' :: rest) := by
    simp [stringChars]
  rw [hChars]
  refine ofChars_of_next rfl ?_
  simp only [next?, hScan, hPieces, Option.map_some, String.ofList_toList]

end Token

end AssetShell
