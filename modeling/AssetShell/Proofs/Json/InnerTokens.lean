import AssetShell.Proofs.Json.PrintedTokens
import AssetShell.Proofs.Text.Span

/-!
# Tokens of a text inside another

A text that is followed by something else keeps its tokens, unless it ends with a numeral that goes
on there. Where a token is read, only its own characters and the one behind it are looked at.
-/

namespace AssetShell

/-! ## Numerals -/

namespace Numeral

variable {n : Numeral} {c : Char} {cs r behind : List Char}

/-- No numeral goes on here. -/
def Ends (behind : List Char) : Prop :=
  ∀ c ∈ behind.head?, c.isDigit = false ∧ c ≠ '.' ∧ FloatText.isExponentMark c = false

theorem ends_comma (r : List Char) : Ends (',' :: r) := by
  rintro _ ⟨⟩
  decide

theorem ends_closeArray (r : List Char) : Ends (']' :: r) := by
  rintro _ ⟨⟩
  decide

theorem sign_append (h : cs ≠ []) (behind : List Char) :
    sign (cs ++ behind) = ((sign cs).1, (sign cs).2 ++ behind) := by
  obtain ⟨c, r, rfl⟩ := List.exists_cons_of_ne_nil h
  by_cases hMinus : c = '-'
  · subst hMinus
    rfl
  · simp [sign, hMinus]

section Behind

variable (hEnds : Ends behind)
include hEnds

theorem digits_append (cs : List Char) :
    (cs ++ behind).takeWhile Char.isDigit = cs.takeWhile Char.isDigit ∧
      (cs ++ behind).dropWhile Char.isDigit = cs.dropWhile Char.isDigit ++ behind := by
  have hSpan := span_append_behind (List.span_eq_takeWhile_dropWhile Char.isDigit cs)
    fun c hc => (hEnds c hc).1
  rw [List.span_eq_takeWhile_dropWhile] at hSpan
  exact Prod.mk.inj hSpan

theorem fraction?_append {f : Option (List Char)} (h : fraction? cs = some (f, r)) :
    fraction? (cs ++ behind) = some (f, r ++ behind) := by
  unfold fraction? at h
  split at h
  · rename_i s
    obtain ⟨hTake, hDrop⟩ := digits_append hEnds s
    rw [List.cons_append, fraction?, hTake, hDrop]
    simp only at h ⊢
    split at h
    · cases h
    · rename_i hSome
      cases h
      rw [if_neg hSome]
  · rename_i hPoint
    cases h
    cases cs with
    | nil =>
      rw [List.nil_append, fraction?]
      exact fun s hs => (hEnds '.' (hs ▸ rfl)).2.1 rfl
    | cons c s =>
      rw [List.cons_append, fraction?]
      exact fun t ht => hPoint s (by rw [(List.cons.inj ht).1])

theorem exponentDigits?_append {negative : Bool} {e : Option Int}
    (h : exponentDigits? negative cs = some (e, r)) :
    exponentDigits? negative (cs ++ behind) = some (e, r ++ behind) := by
  obtain ⟨hTake, hDrop⟩ := digits_append hEnds cs
  simp only [exponentDigits?, hTake, hDrop] at h ⊢
  split at h
  · cases h
  · rename_i hSome
    cases h
    rw [if_neg hSome]

theorem exponent?_append {e : Option Int} (h : exponent? cs = some (e, r)) :
    exponent? (cs ++ behind) = some (e, r ++ behind) := by
  cases cs with
  | nil =>
    cases h
    cases behind with
    | nil => rfl
    | cons c s => simp [exponent?, (hEnds c rfl).2.2]
  | cons c s =>
    by_cases hMark : FloatText.isExponentMark c = true
    · -- Digits stand behind the mark, so a sign cannot come from what follows.
      cases s with
      | nil =>
        simp only [exponent?, hMark, if_true] at h
        cases h
      | cons d t =>
        by_cases hMinus : d = '-'
        · subst hMinus
          simp only [List.cons_append, exponent?, hMark, if_true] at h ⊢
          exact exponentDigits?_append hEnds h
        · by_cases hPlus : d = '+'
          · subst hPlus
            simp only [List.cons_append, exponent?, hMark, if_true] at h ⊢
            exact exponentDigits?_append hEnds h
          · have hDigits (u : List Char) :
                exponent? (c :: d :: u) = exponentDigits? false (d :: u) := by
              simp [exponent?, hMark, hMinus, hPlus]
            rw [hDigits] at h
            rw [List.cons_append, List.cons_append, hDigits]
            exact exponentDigits?_append hEnds h
    · have hNone (u : List Char) : exponent? (c :: u) = some (none, c :: u) := by
        simp [exponent?, hMark]
      rw [hNone] at h
      cases h
      exact hNone (s ++ behind)

theorem scan?_append (h : scan? cs = some (n, r)) :
    scan? (cs ++ behind) = some (n, r ++ behind) := by
  have hSome : cs ≠ [] := by
    rintro rfl
    cases h
  unfold scan? at h ⊢
  rw [sign_append hSome]
  obtain ⟨hTake, hDrop⟩ := digits_append hEnds (sign cs).2
  simp only [hTake, hDrop] at h ⊢
  split at h
  · rename_i hWhole
    rw [if_pos hWhole]
    split at h
    · cases h
    · rename_i f s hFraction
      rw [fraction?_append hEnds hFraction]
      simp only
      split at h
      · cases h
      · rename_i e t hExponent
        rw [exponent?_append hEnds hExponent]
        cases h
        rfl
  · cases h

end Behind

/-- A numeral starts with a minus or a digit. -/
theorem start_of_scan? (h : scan? (c :: cs) = some (n, r)) : c = '-' ∨ c.isDigit = true := by
  by_cases hMinus : c = '-'
  · exact .inl hMinus
  · right
    have hSign : sign (c :: cs) = (false, c :: cs) := by
      simp [sign, hMinus]
    by_contra hDigit
    rw [scan?, hSign] at h
    simp [hDigit, isWhole, isDigits] at h

end Numeral

/-! ## Strings -/

namespace Token

variable {pieces : List Piece} {t : Token} {c : Char} {cs r behind : List Char}

theorem scanString_append (h : scanString cs = some (pieces, r)) (behind : List Char) :
    scanString (cs ++ behind) = some (pieces, r ++ behind) := by
  fun_induction scanString cs generalizing pieces r with
  | case1 => cases h
  | case2 s =>
    cases h
    rfl
  | case3 a b c d s n found rest hScan hUnit ih =>
    cases h
    exact scanString_unit (ih hScan) hUnit
  | case4 => cases h
  | case5 e s _ d found rest hScan hEscape ih =>
    cases h
    have hUnit : e ≠ 'u' := by
      rintro rfl
      cases hEscape
    exact scanString_escape (ih hScan) hUnit hEscape
  | case6 => cases h
  | case7 => cases h
  | case8 c s hQuote _ hEscape hControl found rest hScan ih =>
    cases h
    have hBackslash : c ≠ '\\' := by
      rintro rfl
      cases s with
      | nil => cases hScan
      | cons e r => exact hEscape e r rfl rfl
    exact scanString_plain (ih hScan) hQuote hBackslash hControl
  | case9 => cases h

/-! ## Tokens -/

/-- A numeral is tried where no other token starts. -/
theorem next?_of_start (h : c = '-' ∨ c.isDigit = true) (cs : List Char) :
    next? (c :: cs) = (Numeral.scan? (c :: cs)).map fun found => (.number found.1, found.2) := by
  have hStarts : (['\x7b', '\x7d', '[', ']', ':', ',', 'n', 't', 'f', '"'].all fun d =>
      d != '-' && !d.isDigit) = true :=
    rfl
  have hOther : c ∉ ['\x7b', '\x7d', '[', ']', ':', ',', 'n', 't', 'f', '"'] := by
    intro hc
    have hStart := List.all_eq_true.mp hStarts c hc
    rcases h with rfl | hDigit
    · cases hStart
    · rw [hDigit, Bool.not_true, Bool.and_false] at hStart
      cases hStart
  simp only [List.mem_cons, List.not_mem_nil, or_false, not_or] at hOther
  rw [next?]
  · cases Numeral.scan? (c :: cs) <;> rfl
  -- Each of the other equations asks for one of these characters.
  all_goals
    intros
    simp_all

theorem next?_append (hEnds : Numeral.Ends behind) (h : next? cs = some (t, r)) :
    next? (cs ++ behind) = some (t, r ++ behind) := by
  unfold next? at h
  split at h
  case h_10 s =>
    split at h
    · rename_i hScan
      cases h
      simp only [List.cons_append, next?, scanString_append hScan behind]
    · cases h
  case h_11 =>
    split at h
    · rename_i n rest hScan
      cases h
      cases cs with
      | nil => cases hScan
      | cons c s =>
        rw [List.cons_append, next?_of_start (Numeral.start_of_scan? hScan), ← List.cons_append,
          Numeral.scan?_append hEnds hScan, Option.map_some]
    · cases h
  all_goals
    cases h
    rfl

theorem ofChars_append (hEnds : Numeral.Ends behind) (h : .stray ∉ ofChars cs) :
    ofChars (cs ++ behind) = ofChars cs ++ ofChars behind := by
  induction cs using ofChars.induct with
  | case1 cs hBlank =>
    rw [ofChars_of_dropWhile_nil hBlank, List.nil_append]
    exact ofChars_blank_append (List.dropWhile_eq_nil_iff.mp hBlank) behind
  | case2 cs c s hCs hNext =>
    rw [ofChars_of_dropWhile_stray hCs hNext] at h
    exact absurd (List.mem_singleton_self _) h
  | case3 cs c s hCs t rest hNext ih =>
    rw [ofChars_of_dropWhile_cons hCs hNext, List.mem_cons, not_or] at h
    have hDrop : (cs ++ behind).dropWhile isBlank = c :: (s ++ behind) := by
      rw [List.dropWhile_append, hCs]
      rfl
    rw [ofChars_of_dropWhile_cons hDrop (next?_append hEnds hNext),
      ofChars_of_dropWhile_cons hCs hNext, ih h.2, List.cons_append]

end Token

end AssetShell
