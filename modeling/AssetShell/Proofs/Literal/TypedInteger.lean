import AssetShell.Json.Printer
import AssetShell.Proofs.Literal.Agreement
import AssetShell.Proofs.Number.CanonicalInteger

/-!
# Typed values of integer literals

An accepted integer literal keeps the integer that it denotes: as a number where 64 bits can hold it,
with or without a sign, as its canonical text up to 128 bits, and as it was written beyond them.
-/

namespace AssetShell

theorem Wide.fits_iff {v : Int} : Fits v ↔ -2 ^ 127 ≤ v ∧ v ≤ 2 ^ 127 - 1 := by
  simp [Fits, least, greatest]

namespace TypedValue

variable {d : Datatype} {m : IntegerClass} {raw : String} {v : Int}

theorem jsonInteger_contains_iff :
    jsonInteger.contains v = true ↔ -2 ^ 63 ≤ v ∧ v ≤ 2 ^ 64 - 1 := by
  simp [jsonInteger, IntegerClass.contains]

theorem toJson_integer_of_narrow (h : -2 ^ 63 ≤ v ∧ v ≤ 2 ^ 64 - 1) :
    (TypedValue.integer v).toJson = .number (.integer v) :=
  if_pos (jsonInteger_contains_iff.mpr h)

theorem toJson_integer_of_wide (h : ¬ (-2 ^ 63 ≤ v ∧ v ≤ 2 ^ 64 - 1)) :
    (TypedValue.integer v).toJson = .string (toString v) :=
  if_neg (mt jsonInteger_contains_iff.mp h)

theorem compactText_integer (v : Int) :
    (Json.number (.integer v)).compactText.toList = (toString v).toList :=
  String.toList_ofList

/-- The value of an accepted literal depends on nothing but the integer it denotes, as long as 128
bits can hold it. -/
theorem ofLiteral_of_denotes (hm : d.integers? = some m) (h : Literal.check d raw = .ok ())
    (hv : DenotesInteger raw.toList v) :
    m.contains v = true ∧
      ofLiteral d raw = if Wide.Fits v then .integer v else .text raw := by
  obtain ⟨i, hi, hMember, hRead⟩ := read?_integer hm h
  obtain rfl := hi.unique hv
  refine ⟨hMember, ?_⟩
  rw [ofLiteral, hRead]
  split <;> rfl

/-- Integers of 64 bits, with or without a sign, are written as numbers. -/
theorem narrow_of_bounds {lo hi : Int} (hm : d.integers? = some (.between lo hi))
    (hv : (IntegerClass.between lo hi).contains v = true) : -2 ^ 63 ≤ v ∧ v ≤ 2 ^ 64 - 1 := by
  have hBounds : -2 ^ 63 ≤ lo ∧ hi ≤ 2 ^ 64 - 1 := by
    cases d with
    | byte | short | int | long | unsignedByte | unsignedShort | unsignedInt | unsignedLong =>
      cases hm
      decide
    | _ => cases hm
  simp only [IntegerClass.contains, Bool.and_eq_true, decide_eq_true_eq] at hv
  exact ⟨hBounds.1.trans hv.1, hv.2.trans hBounds.2⟩

/-- A datatype with bounds is a range; the others of the twelve name a sign. -/
theorem range_or_sign (hm : d.integers? = some m) :
    (∃ lo hi, m = .between lo hi) ∨ d.bounds? = none ∧
      d ∈ [.nonPositiveInteger, .negativeInteger, .nonNegativeInteger, .positiveInteger] := by
  cases d with
  | byte | short | int | long | unsignedByte | unsignedShort | unsignedInt | unsignedLong =>
    cases hm
    exact .inl ⟨_, _, rfl⟩
  | nonPositiveInteger | negativeInteger | nonNegativeInteger | positiveInteger =>
    exact .inr ⟨rfl, by decide⟩
  | _ => cases hm

/-- An accepted integer literal is a typed integer within 128 bits and stays as it is beyond them. It
is written as a number within 64 bits, with or without a sign, and as a string beyond them. -/
theorem ofLiteral_keeps_integer {members : Set Int} (hd : d.integerSet? = some members)
    (h : Literal.check d raw = .ok ()) :
    (∃ v, DenotesInteger raw.toList v) ∧ ∀ v, DenotesInteger raw.toList v →
      let value := ofLiteral d raw
      (-2 ^ 127 ≤ v ∧ v ≤ 2 ^ 127 - 1 → value = .integer v ∧
        if -2 ^ 63 ≤ v ∧ v ≤ 2 ^ 64 - 1 then
          value.toJson = .number (.integer v) ∧
            IsCanonicalInteger value.toJson.compactText.toList v
        else ∃ text, value.toJson = .string text ∧ IsCanonicalInteger text.toList v) ∧
      (¬ (-2 ^ 127 ≤ v ∧ v ≤ 2 ^ 127 - 1) →
        value = .text raw ∧ value.toJson = .string raw ∧
          d ∈ [.nonPositiveInteger, .negativeInteger, .nonNegativeInteger, .positiveInteger]) ∧
      (d.bounds?.isSome = true → value.toJson = .number (.integer v)) := by
  obtain ⟨m, hm, -⟩ := Datatype.exists_integers? hd
  obtain ⟨v, hv, -⟩ := read?_integer hm h
  refine ⟨⟨v, hv⟩, fun v hv => ?_⟩
  obtain ⟨hMember, hValue⟩ := ofLiteral_of_denotes hm h hv
  simp only [Wide.fits_iff] at hValue
  have hRange : ∀ lo hi, m = .between lo hi → -2 ^ 63 ≤ v ∧ v ≤ 2 ^ 64 - 1 := by
    rintro lo hi rfl
    exact narrow_of_bounds hm hMember
  refine ⟨fun hFits => ?_, fun hWide => ?_, fun hBounds => ?_⟩
  · rw [hValue, if_pos hFits]
    refine ⟨rfl, ?_⟩
    split
    · rename_i hNarrow
      rw [toJson_integer_of_narrow hNarrow, compactText_integer]
      exact ⟨rfl, isCanonicalInteger_toString v⟩
    · rename_i hBeyond
      exact ⟨_, toJson_integer_of_wide hBeyond, isCanonicalInteger_toString v⟩
  · rw [hValue, if_neg hWide]
    refine ⟨rfl, rfl, ?_⟩
    rcases range_or_sign hm with ⟨lo, hi, hBetween⟩ | ⟨-, hSign⟩
    · have hNarrow := hRange lo hi hBetween
      exact absurd ⟨by omega, by omega⟩ hWide
    · exact hSign
  · rcases range_or_sign hm with ⟨lo, hi, hBetween⟩ | ⟨hNone, -⟩
    · have hNarrow := hRange lo hi hBetween
      rw [hValue, if_pos ⟨by omega, by omega⟩]
      exact toJson_integer_of_narrow hNarrow
    · rw [hNone] at hBounds
      cases hBounds

/-- The greatest integer of 64 bits, written with a plus and a zero in front, is a number; the next
one is a string. -/
theorem ofLiteral_keeps_integer_around_64_bits :
    let fits := ofLiteral .unsignedLong "+018446744073709551615"
    let beyond := ofLiteral .nonNegativeInteger "18446744073709551616"
    Literal.check .unsignedLong "+018446744073709551615" = .ok () ∧
      Literal.check .nonNegativeInteger "18446744073709551616" = .ok () ∧
      fits.toJson = .number (.integer (2 ^ 64 - 1)) ∧
      ∃ text, beyond.toJson = .string text ∧ IsCanonicalInteger text.toList (2 ^ 64) := by
  have hFits : Literal.check .unsignedLong "+018446744073709551615" = .ok () := by decide
  have hBeyond : Literal.check .nonNegativeInteger "18446744073709551616" = .ok () := by decide
  have hGreatest : DenotesInteger "+018446744073709551615".toList (2 ^ 64 - 1) :=
    IntegerText.denotesInteger_iff.mpr ⟨_, rfl, by decide⟩
  have hNext : DenotesInteger "18446744073709551616".toList (2 ^ 64) :=
    IntegerText.denotesInteger_iff.mpr ⟨_, rfl, by decide⟩
  obtain ⟨-, hNumber⟩ := ofLiteral_keeps_integer (d := .unsignedLong) rfl hFits
  obtain ⟨-, hString⟩ := ofLiteral_keeps_integer (d := .nonNegativeInteger) rfl hBeyond
  refine ⟨hFits, hBeyond, (hNumber _ hGreatest).2.2 rfl, ?_⟩
  exact ((hString _ hNext).1 (by decide)).2

end TypedValue

end AssetShell
