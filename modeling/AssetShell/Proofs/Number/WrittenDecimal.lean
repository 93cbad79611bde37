import AssetShell.Number.Written
import AssetShell.Proofs.Number.IntegerText
import AssetShell.Proofs.Text.Span

/-!
# Decimal literals and floating texts

A floating text is a sign or none, digits with a point among them or none, and an exponent or none,
or a word. A decimal literal has its digits tested after the point was taken out, so it may also have
its sign behind a point in front, and underscores between its digits. Without these two it is a
floating text.
-/

namespace AssetShell

/-! ## Parts of a decimal -/

/-- Nothing, or a point and the digits behind it. -/
inductive PointText : List Char → List Char → Prop
  | absent : PointText [] []
  | written (fraction : List Char) : PointText ('.' :: fraction) fraction

theorem PointText.subset {point fraction : List Char} (h : PointText point fraction) :
    fraction ⊆ point := by
  cases h with
  | absent => exact List.Subset.refl _
  | written => exact List.subset_cons_self _ _

/-- Nothing, or a mark and an integer text. -/
inductive ExponentText : List Char → Int → Prop
  | absent : ExponentText [] 0
  | written {c : Char} {digits : List Char} {e : Int} (hMark : c = 'e' ∨ c = 'E')
    (hDigits : DenotesInteger digits e) : ExponentText (c :: digits) e

theorem IsSign.mem {sign : List Char} {negative : Bool} (h : IsSign sign negative) :
    ∀ c ∈ sign, c = '+' ∨ c = '-' := by
  cases h <;> simp

theorem DenotesInteger.mem {cs : List Char} {v : Int} (h : DenotesInteger cs v) :
    ∀ c ∈ cs, (c = '+' ∨ c = '-') ∨ c.isDigit = true := by
  obtain ⟨sign, negative, digits, hSign, rfl, -, hDigits, -⟩ := h
  intro c hc
  rcases List.mem_append.mp hc with hc | hc
  · exact .inl (hSign.mem c hc)
  · exact .inr (isDigit_iff.mpr (hDigits c hc))

namespace ExponentText

variable {tail : List Char} {e : Int}

theorem head (h : ExponentText tail e) : ∀ c ∈ tail.head?, c = 'e' ∨ c = 'E' := by
  intro c hc
  cases h with
  | absent => cases hc
  | written hMark _ =>
    cases hc
    exact hMark

theorem head_isDigit (h : ExponentText tail e) : ∀ c ∈ tail.head?, c.isDigit = false := by
  intro c hc
  rcases h.head c hc with rfl | rfl <;> rfl

theorem mem (h : ExponentText tail e) :
    ∀ c ∈ tail, (c = 'e' ∨ c = 'E') ∨ (c = '+' ∨ c = '-') ∨ c.isDigit = true := by
  cases h with
  | absent => exact fun c hc => absurd hc List.not_mem_nil
  | written hMark hDigits =>
    exact List.forall_mem_cons.mpr ⟨.inl hMark, fun c hc => .inr (hDigits.mem c hc)⟩

end ExponentText

namespace FloatText

variable {cs tail whole point fraction sign : List Char} {e : Int} {negative : Bool}

theorem isExponentMark_iff {c : Char} : isExponentMark c = true ↔ c = 'e' ∨ c = 'E' := by
  simp [isExponentMark]

theorem exponent?_eq_some_iff : exponent? cs = some e ↔ ExponentText cs e := by
  constructor
  · intro h
    unfold exponent? at h
    split at h
    · cases h
      exact .absent
    · split at h
      · rename_i hMark
        obtain ⟨t, ht, rfl⟩ := Option.map_eq_some_iff.mp h
        exact .written (isExponentMark_iff.mp hMark)
          (IntegerText.denotesInteger_iff.mpr ⟨t, ht, rfl⟩)
      · cases h
  · intro h
    cases h with
    | absent => rfl
    | written hMark hDigits =>
      obtain ⟨t, ht, rfl⟩ := IntegerText.denotesInteger_iff.mp hDigits
      rw [exponent?, if_pos (isExponentMark_iff.mpr hMark), ht, Option.map_some]

/-- Behind a point or none, what is no digit ends the fraction. -/
theorem fractionOf_append (hPoint : PointText point fraction)
    (hFraction : ∀ c ∈ fraction, c.isDigit = true) (hTail : ExponentText tail e) :
    fractionOf (point ++ tail) = (fraction, tail) := by
  cases hPoint with
  | written => exact span_append hFraction hTail.head_isDigit
  | absent =>
    rw [List.nil_append]
    unfold fractionOf
    split
    · rcases hTail.head '.' rfl with hMark | hMark <;> cases hMark
    · rfl

theorem exists_fractionOf (cs : List Char) :
    ∃ point fraction tail, fractionOf cs = (fraction, tail) ∧ cs = point ++ tail ∧
      PointText point fraction ∧ ∀ c ∈ fraction, c.isDigit = true := by
  unfold fractionOf
  split
  · rename_i r
    obtain ⟨hSplit, hDigits, -⟩ := span_eq_iff.mp (rfl : r.span Char.isDigit = (_, _))
    exact ⟨'.' :: (r.span Char.isDigit).1, _, _, rfl, congrArg ('.' :: ·) hSplit, .written _, hDigits⟩
  · exact ⟨[], [], _, rfl, rfl, .absent, fun c hc => absurd hc List.not_mem_nil⟩

theorem decimal?_eq_some_iff {t : DecimalText} :
    decimal? negative cs = some t ↔ t.negative = negative ∧ ∃ point tail,
      cs = t.whole ++ point ++ tail ∧ PointText point t.fraction ∧ ExponentText tail t.exponent ∧
        (∀ c ∈ t.whole ++ t.fraction, c.isDigit = true) ∧ t.whole ++ t.fraction ≠ [] := by
  constructor
  · intro h
    obtain ⟨hSplit, hWhole, -⟩ := span_eq_iff.mp (rfl : cs.span Char.isDigit = (_, _))
    obtain ⟨point, fraction, tail, hFractionOf, hRest, hPoint, hFraction⟩ :=
      exists_fractionOf (cs.span Char.isDigit).2
    simp only [decimal?, hFractionOf] at h
    split at h
    · cases h
    · rename_i hSome
      obtain ⟨e, hExponent, rfl⟩ := Option.map_eq_some_iff.mp h
      refine ⟨rfl, point, tail, ?_, hPoint, exponent?_eq_some_iff.mp hExponent, ?_, ?_⟩
      · rw [List.append_assoc, ← hRest]
        exact hSplit
      · exact List.forall_mem_append.mpr ⟨hWhole, hFraction⟩
      · simpa using hSome
  · obtain ⟨_, whole, fraction, e⟩ := t
    rintro ⟨rfl, point, tail, rfl, hPoint, hTail, hDigits, hSome⟩
    obtain ⟨hWhole, hFraction⟩ := List.forall_mem_append.mp hDigits
    have hStop : ∀ c ∈ (point ++ tail).head?, c.isDigit = false := by
      cases hPoint with
      | absent => exact hTail.head_isDigit
      | written => exact fun c hc => by cases hc; rfl
    have hEmpty : (whole.isEmpty && fraction.isEmpty) = false := by simpa using hSome
    rw [List.append_assoc]
    simp only [decimal?, span_append hWhole hStop, fractionOf_append hPoint hFraction hTail, hEmpty,
      exponent?_eq_some_iff.mpr hTail]
    rfl

/-! ## Floating texts -/

theorem exists_sign (cs : List Char) :
    ∃ sign, IsSign sign (unsign cs).1 ∧ cs = sign ++ (unsign cs).2 := by
  unfold unsign
  split
  · exact ⟨['-'], .minus, rfl⟩
  · exact ⟨['+'], .plus, rfl⟩
  · exact ⟨[], .none, rfl⟩

theorem unsign_append (h : IsSign sign negative)
    (hHead : ∀ c ∈ cs.head?, c.isDigit = true ∨ c = '.') : unsign (sign ++ cs) = (negative, cs) := by
  cases h with
  | plus => rfl
  | minus => rfl
  | none =>
    rw [List.nil_append]
    unfold unsign
    split
    · rcases hHead '-' rfl with hDigit | hPoint
      · cases hDigit
      · cases hPoint
    · rcases hHead '+' rfl with hDigit | hPoint
      · cases hDigit
      · cases hPoint
    · rfl

/-- The letters of the words, in small ones. -/
def wordLetters : List Char := "infinityna".toList

/-- The characters of floating texts. -/
def IsFloatChar (c : Char) : Prop :=
  c ∈ "+-.eE".toList ∨ c.isDigit = true ∨ c.toLower ∈ wordLetters

instance (c : Char) : Decidable (IsFloatChar c) := inferInstanceAs (Decidable (_ ∨ _))

theorem toLower_mem_wordLetters {t : FloatText} (h : word? negative cs = some t) :
    ∀ c ∈ cs, c.toLower ∈ wordLetters := by
  intro c hc
  have hMem : c.toLower ∈ cs.map Char.toLower := List.mem_map_of_mem hc
  simp only [word?] at h
  split at h
  · rename_i hWord
    rcases hWord with hWord | hWord
    · exact (by decide : "inf".toList ⊆ wordLetters) (hWord ▸ hMem)
    · exact (by decide : "infinity".toList ⊆ wordLetters) (hWord ▸ hMem)
  · split at h
    · rename_i hWord
      exact (by decide : "nan".toList ⊆ wordLetters) (hWord ▸ hMem)
    · cases h

theorem toLower_of_isDigit {c : Char} (h : c.isDigit = true) : c.toLower = c := by
  have hRange := toNat_of_isDigit h
  refine dif_neg ?_
  rintro ⟨hUpper, -⟩
  have hUpper : 65 ≤ c.toNat := hUpper
  omega

theorem word?_eq_none_of_isDigit {c : Char} (hMem : c ∈ cs) (hDigit : c.isDigit = true) :
    word? negative cs = none := by
  refine Option.eq_none_iff_forall_ne_some.mpr fun t ht => ?_
  have hLetter := toLower_mem_wordLetters ht c hMem
  rw [toLower_of_isDigit hDigit] at hLetter
  have hNoDigit : wordLetters.all (fun x => !x.isDigit) = true := by decide
  have hOther := List.all_eq_true.mp hNoDigit c hLetter
  rw [hDigit] at hOther
  cases hOther

theorem isFloatChar_of_decimal? {t : DecimalText} (h : decimal? negative cs = some t) :
    ∀ c ∈ cs, IsFloatChar c := by
  obtain ⟨_, whole, fraction, e⟩ := t
  obtain ⟨-, point, tail, rfl, hPoint, hTail, hDigits, -⟩ := decimal?_eq_some_iff.mp h
  obtain ⟨hWhole, hFraction⟩ := List.forall_mem_append.mp hDigits
  refine List.forall_mem_append.mpr ⟨List.forall_mem_append.mpr ⟨?_, ?_⟩, ?_⟩
  · exact fun c hc => .inr (.inl (hWhole c hc))
  · cases hPoint with
    | absent => exact List.forall_mem_nil _
    | written =>
      exact List.forall_mem_cons.mpr ⟨by decide, fun c hc => .inr (.inl (hFraction c hc))⟩
  · intro c hc
    rcases hTail.mem c hc with (rfl | rfl) | (rfl | rfl) | hDigit
    · decide
    · decide
    · decide
    · decide
    · exact .inr (.inl hDigit)

theorem isFloatChar_of_read? {t : FloatText} (h : read? cs = some t) :
    ∀ c ∈ cs, IsFloatChar c := by
  obtain ⟨sign, hSign, hSplit⟩ := exists_sign cs
  rw [hSplit]
  refine List.forall_mem_append.mpr ⟨fun c hc => ?_, ?_⟩
  · rcases hSign.mem c hc with rfl | rfl <;> decide
  · unfold read? at h
    simp only at h
    split at h
    · rename_i hWord
      exact fun c hc => .inr (.inr (toLower_mem_wordLetters hWord c hc))
    · obtain ⟨_, hDecimal, -⟩ := Option.map_eq_some_iff.mp h
      exact isFloatChar_of_decimal? hDecimal

/-- Behind a point in front there are digits. -/
theorem read?_point_sign {c : Char} (h : c = '+' ∨ c = '-') : read? ('.' :: c :: cs) = none := by
  have hWord : word? false ('.' :: c :: cs) = none := by
    refine Option.eq_none_iff_forall_ne_some.mpr fun t ht => ?_
    exact absurd (toLower_mem_wordLetters ht '.' List.mem_cons_self) (by decide)
  have hDecimal : decimal? false ('.' :: c :: cs) = none := by
    rcases h with rfl | rfl <;> rfl
  have hUnsigned : unsign ('.' :: c :: cs) = (false, '.' :: c :: cs) := rfl
  rw [read?, hUnsigned]
  simp only [hWord, hDecimal, Option.map_none]

/-- What is read as a sign or none, digits with a point among them or none, and an exponent or none. -/
theorem read?_append (hSign : IsSign sign negative) (hPoint : PointText point fraction)
    (hTail : ExponentText tail e) (hDigits : ∀ c ∈ whole ++ fraction, c.isDigit = true)
    (hSome : whole ++ fraction ≠ []) :
    read? (sign ++ (whole ++ point ++ tail)) = some (.decimal ⟨negative, whole, fraction, e⟩) := by
  have hHead : ∀ c ∈ (whole ++ point ++ tail).head?, c.isDigit = true ∨ c = '.' := by
    intro c hc
    cases whole with
    | cons d r =>
      cases hc
      exact .inl (hDigits c List.mem_cons_self)
    | nil =>
      cases hPoint with
      | absent => exact absurd rfl hSome
      | written =>
        cases hc
        exact .inr rfl
  have hWord : word? negative (whole ++ point ++ tail) = none := by
    obtain ⟨c, hc⟩ := List.exists_mem_of_ne_nil _ hSome
    have hMem : c ∈ whole ++ point :=
      (List.mem_append.mp hc).elim (List.mem_append_left _) fun hc =>
        List.mem_append_right _ (hPoint.subset hc)
    exact word?_eq_none_of_isDigit (List.mem_append_left _ hMem) (hDigits c hc)
  have hDecimal : decimal? negative (whole ++ point ++ tail) = some ⟨negative, whole, fraction, e⟩ :=
    decimal?_eq_some_iff.mpr ⟨rfl, point, tail, rfl, hPoint, hTail, hDigits, hSome⟩
  rw [read?, unsign_append hSign hHead]
  simp only [hWord, hDecimal, Option.map_some]

end FloatText

/-! ## Decimal literals -/

namespace DecimalBase

variable {base cs : List Char}

/-- Taking the point out leaves what is before it and what is behind it. -/
theorem exists_ofChars (base : List Char) :
    ∃ lead point fraction, base = lead ++ point ∧ PointText point fraction ∧
      (ofChars base).joined = lead ++ fraction := by
  obtain ⟨lead, r, hSpan⟩ : ∃ lead r, base.span (· ≠ '.') = (lead, r) := ⟨_, _, rfl⟩
  obtain ⟨rfl, -, hStop⟩ := span_eq_iff.mp hSpan
  simp only [ofChars, hSpan]
  cases r with
  | nil => exact ⟨lead, [], [], rfl, .absent, (List.append_nil lead).symm⟩
  | cons c trail =>
    obtain rfl : c = '.' := by simpa using hStop
    exact ⟨lead, '.' :: trail, trail, rfl, .written trail, rfl⟩

theorem isGrouped_digits (h : isGrouped cs = true) (hPlain : '_' ∉ cs) :
    cs ≠ [] ∧ ∀ c ∈ cs, c.isDigit = true := by
  cases cs with
  | nil => cases h
  | cons c r =>
    obtain ⟨hHead, hRest⟩ := Bool.and_eq_true_iff.mp h
    refine ⟨List.cons_ne_nil c r, List.forall_mem_cons.mpr ⟨hHead, fun d hd => ?_⟩⟩
    rcases Bool.or_eq_true_iff.mp (List.all_eq_true.mp hRest d hd) with hDigit | hMark
    · exact hDigit
    · exact absurd (of_decide_eq_true hMark ▸ List.mem_cons_of_mem c hd) hPlain

theorem exists_of_isSigned (h : isSigned cs = true) :
    ∃ sign negative digits, IsSign sign negative ∧ cs = sign ++ digits ∧ isGrouped digits = true := by
  unfold isSigned at h
  split at h
  · exact ⟨_, _, _, .minus, rfl, h⟩
  · exact ⟨_, _, _, .plus, rfl, h⟩
  · exact ⟨_, _, _, .none, rfl, h⟩

end DecimalBase

/-- No underscore, and no sign behind a point in front. -/
def IsPlainDecimal (cs : List Char) : Prop :=
  '_' ∉ cs ∧ ∀ sign ∈ ['+', '-'], ¬ ['.', sign] <+: cs

theorem exists_of_isDecimalLiteral {cs : List Char} (h : isDecimalLiteral cs = true) :
    ∃ base tail e, cs = base ++ tail ∧ ExponentText tail e ∧
      DecimalBase.isSigned (DecimalBase.ofChars base).joined = true := by
  obtain ⟨hSplit, -, -⟩ :=
    span_eq_iff.mp (rfl : cs.span (fun c => !FloatText.isExponentMark c) = (_, _))
  simp only [isDecimalLiteral] at h
  split at h
  · cases h
  · rename_i e hExponent
    exact ⟨_, _, e, hSplit, FloatText.exponent?_eq_some_iff.mp hExponent,
      (Bool.and_eq_true_iff.mp h).1⟩

namespace FloatText

variable {cs lead point fraction digits : List Char} {c : Char}

/-- A sign that is in front once the point is out was in front of it, or right behind it. -/
theorem exists_behind_sign (hText : PointText point fraction)
    (hPlain : ¬ ['.', c] <+: lead ++ point) (hSplit : lead ++ fraction = c :: digits) :
    ∃ whole, lead = c :: whole ∧ digits = whole ++ fraction := by
  cases lead with
  | nil =>
    cases hText with
    | absent => cases hSplit
    | written => exact absurd ⟨digits, congrArg ('.' :: ·) hSplit.symm⟩ hPlain
  | cons d whole =>
    obtain ⟨rfl, rfl⟩ := List.cons.inj hSplit
    exact ⟨whole, rfl, rfl⟩

/-- The digits that were tested together stand on the two sides of the point. -/
theorem exists_read?_of_plain (h : isDecimalLiteral cs = true) (hPlain : IsPlainDecimal cs) :
    ∃ t, read? cs = some (.decimal t) := by
  obtain ⟨hMark, hPoint⟩ := hPlain
  obtain ⟨base, tail, e, rfl, hTail, hSigned⟩ := exists_of_isDecimalLiteral h
  obtain ⟨lead, point, fraction, rfl, hText, hJoined⟩ := DecimalBase.exists_ofChars base
  rw [hJoined] at hSigned
  obtain ⟨sign, negative, digits, hSign, hSplit, hGrouped⟩ := DecimalBase.exists_of_isSigned hSigned
  have hDigitsMark : '_' ∉ digits := by
    intro hMem
    have hMem : '_' ∈ lead ++ fraction := hSplit ▸ List.mem_append_right sign hMem
    refine hMark (List.mem_append_left tail ?_)
    exact (List.mem_append.mp hMem).elim (List.mem_append_left point) fun hMem =>
      List.mem_append_right lead (hText.subset hMem)
  obtain ⟨hSome, hDigits⟩ := DecimalBase.isGrouped_digits hGrouped hDigitsMark
  obtain ⟨whole, rfl, rfl⟩ : ∃ whole, lead = sign ++ whole ∧ digits = whole ++ fraction := by
    have hFront : ∀ c ∈ ['+', '-'], ¬ ['.', c] <+: lead ++ point := fun c hc hPrefix =>
      hPoint c hc (hPrefix.trans (List.prefix_append _ tail))
    cases hSign with
    | none => exact ⟨lead, rfl, hSplit.symm⟩
    | plus => exact exists_behind_sign hText (hFront '+' (by decide)) hSplit
    | minus => exact exists_behind_sign hText (hFront '-' (by decide)) hSplit
  have hRead := read?_append hSign hText hTail hDigits hSome
  exact ⟨_, by simpa only [List.append_assoc] using hRead⟩

theorem isPlainDecimal_of_read? {t : FloatText} (h : read? cs = some t) : IsPlainDecimal cs := by
  refine ⟨fun hMark => absurd (isFloatChar_of_read? h '_' hMark) (by decide), ?_⟩
  rintro sign hSign ⟨r, rfl⟩
  have hNone : read? ('.' :: sign :: r) = none := read?_point_sign (by simpa using hSign)
  have hNone : read? (['.', sign] ++ r) = none := hNone
  rw [hNone] at h
  cases h

end FloatText

end AssetShell
