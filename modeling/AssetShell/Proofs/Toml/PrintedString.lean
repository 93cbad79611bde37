import AssetShell.Toml.Printer
import AssetShell.Toml.Text
import Mathlib.Tactic.IntervalCases

/-!
# Reading printed strings

A string is read as it was printed, in whichever of the four forms, if no further mark follows. In the
forms of several lines the reader takes three marks for the closing ones, and up to two before them
belong to the string: so it matters how many marks stand in a row, which the induction carries along.
-/

namespace AssetShell

namespace Toml

open Text

variable {c mark : Char} {cs r rest : List Char}

/-! ## Escapes -/

theorem escape?_unit {n : Nat} (h : n < 32 ∨ n = 127) (r : List Char) :
    escape? ('u' :: '0' :: '0' :: (hexDigit (n / 16)).toUpper :: (hexDigit (n % 16)).toUpper :: r) =
      some (Char.ofNat n, r) := by
  rcases h with h | rfl
  · interval_cases n <;> rfl
  · rfl

theorem plain_unit {n : Nat} (h : n < 32 ∨ n = 127) :
    ['u', '0', '0', (hexDigit (n / 16)).toUpper, (hexDigit (n % 16)).toUpper].all isPlain = true := by
  rcases h with h | rfl
  · interval_cases n <;> rfl
  · rfl

/-- A character is printed as an escape, or as itself. -/
theorem escapeChar_cases (c : Char) :
    (∃ code, escapeChar c = '\\' :: code ∧ (∀ r, escape? (code ++ r) = some (c, r)) ∧
      code.all isPlain = true) ∨
      (escapeChar c = [c] ∧ isPlain c = true ∧ c ≠ '"' ∧ c ≠ '\\') := by
  by_cases hQuote : c = '"'
  · subst hQuote
    exact .inl ⟨['"'], rfl, fun r => rfl, rfl⟩
  by_cases hBackslash : c = '\\'
  · subst hBackslash
    exact .inl ⟨['\\'], rfl, fun r => rfl, rfl⟩
  by_cases hBackspace : c = '\x08'
  · subst hBackspace
    exact .inl ⟨['b'], rfl, fun r => rfl, rfl⟩
  by_cases hTab : c = '\t'
  · subst hTab
    exact .inl ⟨['t'], rfl, fun r => rfl, rfl⟩
  by_cases hNewline : c = '\n'
  · subst hNewline
    exact .inl ⟨['n'], rfl, fun r => rfl, rfl⟩
  by_cases hFeed : c = '\x0c'
  · subst hFeed
    exact .inl ⟨['f'], rfl, fun r => rfl, rfl⟩
  by_cases hReturn : c = '\r'
  · subst hReturn
    exact .inl ⟨['r'], rfl, fun r => rfl, rfl⟩
  have hRest : escapeChar c = if c.toNat < 32 ∨ c.toNat = 127 then
      ['\\', 'u', '0', '0', (hexDigit (c.toNat / 16)).toUpper, (hexDigit (c.toNat % 16)).toUpper]
      else [c] := by
    simp [escapeChar, hQuote, hBackslash, hBackspace, hTab, hNewline, hFeed, hReturn]
  by_cases hControl : c.toNat < 32 ∨ c.toNat = 127
  · refine .inl ⟨_, hRest.trans (if_pos hControl), fun r => ?_, plain_unit hControl⟩
    have hUnit := escape?_unit hControl r
    rw [Char.ofNat_toNat] at hUnit
    exact hUnit
  · refine .inr ⟨hRest.trans (if_neg hControl), ?_, hQuote, hBackslash⟩
    rw [isPlain, Bool.or_eq_true, Bool.and_eq_true, decide_eq_true_eq, decide_eq_true_eq]
    obtain ⟨hLow, hHigh⟩ := not_or.mp hControl
    exact .inr ⟨Nat.le_of_not_lt hLow, decide_eq_true hHigh⟩

/-! ## One line -/

theorem basic?_escapeChar (h : basic? r = some (cs, rest)) (c : Char) :
    basic? (escapeChar c ++ r) = some (c :: cs, rest) := by
  rcases escapeChar_cases c with ⟨code, hCode, hEscape, -⟩ | ⟨hSelf, hPlain, hQuote, hBackslash⟩
  · rw [hCode, List.cons_append, basic?]
    split
    · rename_i hFound
      cases hFound.symm.trans (hEscape r)
      rw [h, Option.map_some]
    · rename_i hFound
      cases hFound.symm.trans (hEscape r)
  · rw [hSelf, List.singleton_append, basic?]
    · rw [if_pos hPlain, h, Option.map_some]
    · exact hQuote
    · exact hBackslash

theorem basic?_printed (cs rest : List Char) :
    basic? (cs.flatMap escapeChar ++ '"' :: rest) = some (cs, rest) := by
  induction cs with
  | nil =>
    rw [List.flatMap_nil, List.nil_append, basic?]
  | cons c r ih =>
    rw [List.flatMap_cons, List.append_assoc]
    exact basic?_escapeChar ih c

theorem literal?_printed (h : ∀ c ∈ cs, isPlain c = true ∧ c ≠ '\'') (rest : List Char) :
    literal? (cs ++ '\'' :: rest) = some (cs, rest) := by
  induction cs with
  | nil => rfl
  | cons c r ih =>
    obtain ⟨hFirst, hRest⟩ := List.forall_mem_cons.mp h
    rw [List.cons_append, literal?]
    · rw [if_pos hFirst.1, ih hRest, Option.map_some]
    · exact hFirst.2

/-! ## Several lines -/

/-- A reader of lines that stops at three marks and takes fewer of them as they are. -/
structure StopsAt (mark : Char) (lines? : List Char → Option (List Char × List Char)) : Prop where
  stop (r : List Char) : lines? (mark :: mark :: mark :: r) = some (closing mark r)
  single (r : List Char) : (∀ s, r ≠ mark :: mark :: s) →
    lines? (mark :: r) = (lines? r).map fun (cs, rest) => (mark :: cs, rest)

theorem basicLines?_plain (hPlain : (isPlain c || c = '\n') = true) (hBackslash : c ≠ '\\')
    (hStop : ∀ s, c = '"' → r ≠ '"' :: '"' :: s) :
    basicLines? (c :: r) = (basicLines? r).map fun (cs, rest) => (c :: cs, rest) := by
  rw [basicLines?]
  · rw [if_pos hPlain]
  · exact fun s hc hr => hStop s hc hr
  · exact hBackslash

theorem literalLines?_plain (hPlain : (isPlain c || c = '\n') = true)
    (hStop : ∀ s, c = '\'' → r ≠ '\'' :: '\'' :: s) :
    literalLines? (c :: r) = (literalLines? r).map fun (cs, rest) => (c :: cs, rest) := by
  rw [literalLines?]
  · rw [if_pos hPlain]
  · exact fun s hc hr => hStop s hc hr

theorem stopsAt_basicLines? : StopsAt '"' basicLines? where
  stop r := by rw [basicLines?]
  single r hr := basicLines?_plain (by decide) (by decide) fun s _ => hr s

theorem stopsAt_literalLines? : StopsAt '\'' literalLines? where
  stop r := by rw [literalLines?]
  single r hr := literalLines?_plain (by decide) fun s _ => hr s

namespace StopsAt

variable {lines? : List Char → Option (List Char × List Char)} {n : Nat}

/-- Up to two marks before another character are no closing marks. -/
theorem marks (h : StopsAt mark lines?) (hn : n ≤ 2) (hc : c ≠ mark)
    (hRead : lines? (c :: r) = some (cs, rest)) :
    lines? (List.replicate n mark ++ c :: r) = some (List.replicate n mark ++ cs, rest) := by
  have hOne : lines? (mark :: c :: r) = some (mark :: cs, rest) := by
    rw [h.single, hRead, Option.map_some]
    exact fun s hs => hc (List.cons.inj hs).1
  match n with
  | 0 => exact hRead
  | 1 => exact hOne
  | 2 =>
    change lines? (mark :: mark :: c :: r) = some (mark :: mark :: cs, rest)
    rw [h.single, hOne, Option.map_some]
    exact fun s hs => hc (List.cons.inj (List.cons.inj hs).2).1

/-- Up to two marks before the closing ones belong to the string. -/
theorem closes (h : StopsAt mark lines?) (hn : n ≤ 2) (hRest : mark ∉ rest.head?) :
    lines? (List.replicate n mark ++ mark :: mark :: mark :: rest) =
      some (List.replicate n mark, rest) := by
  have hNone : closing mark rest = ([], rest) := by
    match rest with
    | [] => rfl
    | [a] =>
      rw [closing, if_neg]
      rintro rfl
      exact hRest rfl
    | a :: b :: s =>
      rw [closing, if_neg]
      rintro rfl
      exact hRest rfl
  match n with
  | 0 =>
    rw [List.replicate_zero, List.nil_append, h.stop, hNone]
  | 1 =>
    change lines? (mark :: mark :: mark :: mark :: rest) = some ([mark], rest)
    rw [h.stop]
    match rest with
    | [] => rw [closing, if_pos rfl]
    | a :: s =>
      rw [closing, if_pos rfl, if_neg]
      rintro rfl
      exact hRest rfl
  | 2 =>
    change lines? (mark :: mark :: mark :: mark :: mark :: rest) = some ([mark, mark], rest)
    rw [h.stop, closing, if_pos rfl, if_pos rfl]

end StopsAt

variable {n : Nat}

theorem replicate_append_cons (n : Nat) (mark : Char) (r : List Char) :
    List.replicate n mark ++ mark :: r = List.replicate (n + 1) mark ++ r := by
  rw [List.replicate_succ', List.append_assoc, List.singleton_append]

/-- A printed character does not start with a quote, even if it is one. -/
theorem exists_escaped_line (h : basicLines? r = some (cs, rest)) (c : Char) :
    ∃ d s, escapeChar c ++ r = d :: s ∧ d ≠ '"' ∧ basicLines? (d :: s) = some (c :: cs, rest) := by
  rcases escapeChar_cases c with ⟨code, hCode, hEscape, -⟩ | ⟨hSelf, hPlain, hQuote, hBackslash⟩
  · refine ⟨'\\', code ++ r, ?_, by decide, ?_⟩
    · rw [hCode, List.cons_append]
    · rw [basicLines?]
      split
      · rename_i hFound
        cases hFound.symm.trans (hEscape r)
        rw [h, Option.map_some]
      · rename_i hFound
        cases hFound.symm.trans (hEscape r)
  · refine ⟨c, r, ?_, hQuote, ?_⟩
    · rw [hSelf, List.singleton_append]
    · rw [basicLines?_plain (Bool.or_eq_true_iff.mpr (.inl hPlain)) hBackslash
        (fun _ hc => absurd hc hQuote), h, Option.map_some]

theorem basicLines?_lineChars (hn : n ≤ 2) (hRest : '"' ∉ rest.head?) (cs : List Char) :
    basicLines? (List.replicate n '"' ++ (lineChars n cs ++ '"' :: '"' :: '"' :: rest)) =
      some (List.replicate n '"' ++ cs, rest) := by
  induction cs generalizing n with
  | nil =>
    rw [List.append_nil]
    exact stopsAt_basicLines?.closes hn hRest
  | cons c r ih =>
    have hBehind : basicLines? (lineChars 0 r ++ '"' :: '"' :: '"' :: rest) = some (r, rest) :=
      ih (Nat.zero_le 2)
    have hEscaped : basicLines? (List.replicate n '"' ++
        (escapeChar c ++ lineChars 0 r ++ '"' :: '"' :: '"' :: rest)) =
        some (List.replicate n '"' ++ c :: r, rest) := by
      obtain ⟨d, s, hPrinted, hd, hRead⟩ := exists_escaped_line hBehind c
      rw [List.append_assoc, hPrinted]
      exact stopsAt_basicLines?.marks hn hd hRead
    rw [lineChars]
    by_cases hQuote : c = '"'
    · subst hQuote
      rw [if_pos rfl]
      by_cases hTwo : n < 2
      · rw [if_pos hTwo, List.cons_append, replicate_append_cons, replicate_append_cons]
        exact ih hTwo
      · rw [if_neg hTwo]
        exact hEscaped
    · rw [if_neg hQuote]
      by_cases hNewline : c = '\n'
      · subst hNewline
        rw [if_pos rfl, List.cons_append]
        refine stopsAt_basicLines?.marks hn (by decide) ?_
        rw [basicLines?_plain (by decide) (by decide) (fun _ hc => absurd hc (by decide))]
        exact congrArg _ hBehind
      · rw [if_neg hNewline]
        exact hEscaped

theorem literalLines?_printed (hPlain : ∀ c ∈ cs, (isPlain c || c = '\n') = true)
    (hRun : longestRun '\'' n cs ≤ 2) (hRest : '\'' ∉ rest.head?) :
    literalLines? (List.replicate n '\'' ++ (cs ++ '\'' :: '\'' :: '\'' :: rest)) =
      some (List.replicate n '\'' ++ cs, rest) := by
  induction cs generalizing n with
  | nil =>
    rw [List.append_nil]
    exact stopsAt_literalLines?.closes hRun hRest
  | cons c r ih =>
    obtain ⟨hFirst, hOthers⟩ := List.forall_mem_cons.mp hPlain
    rw [longestRun] at hRun
    by_cases hMark : c = '\''
    · subst hMark
      rw [if_pos rfl] at hRun
      rw [List.cons_append, replicate_append_cons, replicate_append_cons]
      exact ih hOthers hRun
    · rw [if_neg hMark] at hRun
      obtain ⟨hn, hBehind⟩ := Nat.max_le.mp hRun
      refine stopsAt_literalLines?.marks hn hMark ?_
      rw [literalLines?_plain hFirst (fun _ hc => absurd hc hMark)]
      exact congrArg _ (ih hOthers hBehind)

/-! ## The four forms -/

/-- No mark follows that could be taken for one of the string. -/
def NoMark (rest : List Char) : Prop := '"' ∉ rest.head? ∧ '\'' ∉ rest.head?

theorem noMark_cons (hQuote : c ≠ '"') (hApostrophe : c ≠ '\'') (r : List Char) : NoMark (c :: r) :=
  ⟨fun h => hQuote (Option.some.inj h), fun h => hApostrophe (Option.some.inj h)⟩

theorem firstLine_lineStart {body : List Char} (h : '\n' ∈ body.head? → '\n' ∈ cs) :
    firstLine (lineStart cs ++ body) = body := by
  rw [lineStart]
  by_cases hNewline : '\n' ∈ cs
  · rw [if_pos (List.contains_iff_mem.mpr hNewline)]
    rfl
  · rw [if_neg (mt List.contains_iff_mem.mp hNewline), List.nil_append]
    unfold firstLine
    split
    · exact absurd (h rfl) hNewline
    · rfl

theorem head?_lineChars (h : '\n' ∈ (lineChars 0 cs ++ '"' :: r).head?) : '\n' ∈ cs := by
  cases cs with
  | nil => cases h
  | cons c s =>
    rw [lineChars] at h
    by_cases hQuote : c = '"'
    · rw [if_pos hQuote, if_pos (by decide), hQuote] at h
      cases h
    · rw [if_neg hQuote] at h
      by_cases hNewline : c = '\n'
      · subst hNewline
        exact List.mem_cons_self
      · rw [if_neg hNewline] at h
        rcases escapeChar_cases c with ⟨code, hCode, -⟩ | ⟨hSelf, -⟩
        · rw [hCode] at h
          cases h
        · rw [hSelf] at h
          cases h
          exact absurd rfl hNewline

theorem isPlain_of_not_isControl (h : isControl c = false) : (isPlain c || c = '\n') = true := by
  rw [isControl] at h
  rw [isPlain]
  by_cases hTab : c = '\t'
  · simp [hTab]
  by_cases hNewline : c = '\n'
  · simp [hNewline]
  simp only [ne_eq, hTab, hNewline, not_false_eq_true, decide_true, Bool.true_and,
    Bool.or_eq_false_iff, decide_eq_false_iff_not] at h
  simp only [hTab, hNewline, decide_false, Bool.false_or, Bool.or_false, Bool.and_eq_true,
    decide_eq_true_eq]
  exact ⟨by omega, h.2⟩

theorem admits_literal (h : StringForm.admits cs .literal = true) :
    ∀ c ∈ cs, isPlain c = true ∧ c ≠ '\'' := by
  intro c hc
  simp only [StringForm.admits, Bool.not_eq_true', List.any_eq_false, Bool.or_eq_true,
    decide_eq_true_eq, not_or] at h
  obtain ⟨⟨hControl, hNewline⟩, hMark⟩ := h c hc
  have hPlain := isPlain_of_not_isControl (Bool.eq_false_iff.mpr hControl)
  rw [decide_eq_false hNewline, Bool.or_false] at hPlain
  exact ⟨hPlain, hMark⟩

theorem admits_literalLines (h : StringForm.admits cs .literalLines = true) :
    (∀ c ∈ cs, (isPlain c || c = '\n') = true) ∧ longestRun '\'' 0 cs ≤ 2 := by
  simp only [StringForm.admits, Bool.and_eq_true, Bool.not_eq_true', List.any_eq_false,
    decide_eq_true_eq] at h
  exact ⟨fun c hc => isPlain_of_not_isControl (Bool.eq_false_iff.mpr (h.1 c hc)), h.2⟩

/-- Only a string that has to be escaped gets a form that does not admit it, and then a basic one. -/
theorem admits_ofChars (cs : List Char) :
    (StringForm.ofChars cs).admits cs = true ∨ StringForm.ofChars cs = .basic ∨
      StringForm.ofChars cs = .basicLines := by
  rw [StringForm.ofChars]
  cases hFound : StringForm.all.find? (·.admits cs) with
  | some form => exact .inl (List.find?_some hFound)
  | none =>
    rw [Option.getD_none, StringForm.escaped]
    split
    · exact .inr (.inr rfl)
    · exact .inr (.inl rfl)

theorem read?_basic (hRest : NoMark rest) (cs : List Char) :
    Text.read? (formChars cs .basic ++ rest) = some (cs, rest) := by
  have hChars : formChars cs .basic ++ rest = '"' :: (cs.flatMap escapeChar ++ '"' :: rest) := by
    simp [formChars]
  rw [hChars, Text.read?]
  · exact basic?_printed cs rest
  · intro s hs
    cases cs with
    | nil =>
      obtain rfl := (List.cons.inj hs).2
      exact hRest.1 rfl
    | cons c r =>
      rcases escapeChar_cases c with ⟨code, hCode, -⟩ | ⟨hSelf, -, hQuote, -⟩
      · rw [List.flatMap_cons, hCode] at hs
        cases (List.cons.inj hs).1
      · rw [List.flatMap_cons, hSelf] at hs
        exact hQuote (List.cons.inj hs).1

theorem read?_literal (hRest : NoMark rest) (h : StringForm.admits cs .literal = true) :
    Text.read? (formChars cs .literal ++ rest) = some (cs, rest) := by
  have hPlain := admits_literal h
  have hChars : formChars cs .literal ++ rest = '\'' :: (cs ++ '\'' :: rest) := by
    simp [formChars]
  rw [hChars, Text.read?]
  · exact literal?_printed hPlain rest
  · intro s hs
    cases cs with
    | nil =>
      obtain rfl := (List.cons.inj hs).2
      exact hRest.2 rfl
    | cons c r => exact (hPlain c List.mem_cons_self).2 (List.cons.inj hs).1

theorem read?_basicLines (hRest : NoMark rest) (cs : List Char) :
    Text.read? (formChars cs .basicLines ++ rest) = some (cs, rest) := by
  have hChars : formChars cs .basicLines ++ rest =
      '"' :: '"' :: '"' :: (lineStart cs ++ (lineChars 0 cs ++ '"' :: '"' :: '"' :: rest)) := by
    simp [formChars]
  rw [hChars, Text.read?, firstLine_lineStart head?_lineChars]
  exact basicLines?_lineChars (Nat.zero_le 2) hRest.1 cs

theorem read?_literalLines (hRest : NoMark rest)
    (h : StringForm.admits cs .literalLines = true) :
    Text.read? (formChars cs .literalLines ++ rest) = some (cs, rest) := by
  obtain ⟨hPlain, hRun⟩ := admits_literalLines h
  have hChars : formChars cs .literalLines ++ rest =
      '\'' :: '\'' :: '\'' :: (lineStart cs ++ (cs ++ '\'' :: '\'' :: '\'' :: rest)) := by
    simp [formChars]
  have hStart : firstLine (lineStart cs ++ (cs ++ '\'' :: '\'' :: '\'' :: rest)) =
      cs ++ '\'' :: '\'' :: '\'' :: rest := by
    apply firstLine_lineStart
    intro hNewline
    cases cs with
    | nil => cases hNewline
    | cons c r =>
      cases hNewline
      exact List.mem_cons_self
  rw [hChars, Text.read?, hStart]
  exact literalLines?_printed hPlain hRun hRest.2

theorem read?_stringChars (hRest : NoMark rest) (cs : List Char) :
    Text.read? (stringChars cs ++ rest) = some (cs, rest) := by
  rw [stringChars]
  have hAdmits := admits_ofChars cs
  generalize StringForm.ofChars cs = form at hAdmits ⊢
  cases form with
  | basic => exact read?_basic hRest cs
  | basicLines => exact read?_basicLines hRest cs
  | literal => exact read?_literal hRest (hAdmits.resolve_right (by simp))
  | literalLines => exact read?_literalLines hRest (hAdmits.resolve_right (by simp))

/-! ## No carriage returns -/

theorem return_not_mem_escapeChar (c : Char) : '\r' ∉ escapeChar c := by
  rcases escapeChar_cases c with ⟨code, hCode, -, hPlain⟩ | ⟨hSelf, hPlain, -, -⟩
  · rw [hCode]
    refine List.not_mem_cons_of_ne_of_not_mem (by decide) fun hReturn => ?_
    exact absurd (List.all_eq_true.mp hPlain _ hReturn) (by decide)
  · rw [hSelf, List.mem_singleton]
    rintro rfl
    exact absurd hPlain (by decide)

theorem return_not_mem_lineChars (n : Nat) (cs : List Char) : '\r' ∉ lineChars n cs := by
  induction cs generalizing n with
  | nil => exact List.not_mem_nil
  | cons c r ih =>
    have hEscaped : '\r' ∉ escapeChar c ++ lineChars 0 r := fun h =>
      (List.mem_append.mp h).elim (return_not_mem_escapeChar c) (ih 0)
    rw [lineChars]
    split
    · rename_i hQuote
      split
      · rw [hQuote]
        exact List.not_mem_cons_of_ne_of_not_mem (by decide) (ih _)
      · exact hEscaped
    · split
      · rename_i hNewline
        rw [hNewline]
        exact List.not_mem_cons_of_ne_of_not_mem (by decide) (ih 0)
      · exact hEscaped

theorem return_not_mem_lineStart (cs : List Char) : '\r' ∉ lineStart cs := by
  rw [lineStart]
  split <;> decide

theorem return_not_mem_stringChars (cs : List Char) : '\r' ∉ stringChars cs := by
  rw [stringChars]
  have hAdmits := admits_ofChars cs
  generalize StringForm.ofChars cs = form at hAdmits ⊢
  cases form with
  | basic =>
    simp only [formChars, List.cons_append, List.mem_cons, List.mem_append, List.mem_flatMap,
      not_or, not_exists, not_and]
    exact ⟨by decide, fun c _ => return_not_mem_escapeChar c, by decide⟩
  | basicLines =>
    simp only [formChars, List.mem_append, not_or]
    exact ⟨⟨⟨by decide, return_not_mem_lineStart cs⟩, return_not_mem_lineChars 0 cs⟩, by decide⟩
  | literal =>
    have hPlain := admits_literal (hAdmits.resolve_right (by simp))
    simp only [formChars, List.cons_append, List.mem_cons, List.mem_append, not_or]
    exact ⟨by decide, fun h => absurd (hPlain _ h).1 (by decide), by decide⟩
  | literalLines =>
    have hPlain := (admits_literalLines (hAdmits.resolve_right (by simp))).1
    simp only [formChars, List.mem_append, not_or]
    exact ⟨⟨⟨by decide, return_not_mem_lineStart cs⟩, fun h => absurd (hPlain _ h) (by decide)⟩,
      by decide⟩

end Toml

end AssetShell
