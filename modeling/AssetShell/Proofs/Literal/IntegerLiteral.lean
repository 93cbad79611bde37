import AssetShell.Literal.Check
import AssetShell.Proofs.Number.IntegerText
import Mathlib.Data.Set.Defs

/-!
# Integer literals

The check of an integer literal decides membership of the unbounded integer that the text denotes in
the set of its datatype, for signs on zero, leading zeros and texts of any length.
-/

namespace AssetShell

def twosComplement (width : Nat) : Set Int :=
  {v | -2 ^ (width - 1) ≤ v ∧ v ≤ 2 ^ (width - 1) - 1}

def unsignedRange (width : Nat) : Set Int := {v | 0 ≤ v ∧ v ≤ 2 ^ width - 1}

theorem contains_signed_iff (width : Nat) (v : Int) :
    (IntegerClass.signed width).contains v = true ↔ v ∈ twosComplement width := by
  simp [IntegerClass.signed, IntegerClass.contains, twosComplement]

theorem contains_unsigned_iff (width : Nat) (v : Int) :
    (IntegerClass.unsigned width).contains v = true ↔ v ∈ unsignedRange width := by
  simp [IntegerClass.unsigned, IntegerClass.contains, unsignedRange]

namespace Datatype

def integerSet? : Datatype → Option (Set Int)
  | .byte => some (twosComplement 8)
  | .short => some (twosComplement 16)
  | .int => some (twosComplement 32)
  | .long => some (twosComplement 64)
  | .unsignedByte => some (unsignedRange 8)
  | .unsignedShort => some (unsignedRange 16)
  | .unsignedInt => some (unsignedRange 32)
  | .unsignedLong => some (unsignedRange 64)
  | .nonPositiveInteger => some {v | v ≤ 0}
  | .negativeInteger => some {v | v < 0}
  | .nonNegativeInteger => some {v | 0 ≤ v}
  | .positiveInteger => some {v | 0 < v}
  | _ => none

theorem integers?_narrow {d : Datatype} {m : IntegerClass} (h : d.integers? = some m) :
    m.Narrow := by
  cases d with
  | byte | short | int | long =>
    cases h
    exact IntegerClass.narrow_signed (by decide)
  | unsignedByte | unsignedShort | unsignedInt | unsignedLong =>
    cases h
    exact IntegerClass.narrow_unsigned (by decide)
  | nonPositiveInteger | negativeInteger | nonNegativeInteger | positiveInteger =>
    cases h
    trivial
  | _ => cases h

/-- Each integer datatype names the class of integers that is its set. -/
theorem exists_integers? {d : Datatype} {s : Set Int} (h : d.integerSet? = some s) :
    ∃ m, d.integers? = some m ∧ ∀ v, m.contains v = true ↔ v ∈ s := by
  cases d with
  | byte | short | int | long =>
    cases h
    exact ⟨_, rfl, contains_signed_iff _⟩
  | unsignedByte | unsignedShort | unsignedInt | unsignedLong =>
    cases h
    exact ⟨_, rfl, contains_unsigned_iff _⟩
  | nonPositiveInteger | negativeInteger | nonNegativeInteger | positiveInteger =>
    cases h
    exact ⟨_, rfl, fun v => decide_eq_true_iff⟩
  | _ => cases h

end Datatype

namespace Literal

variable {d : Datatype} {m : IntegerClass} {raw : String}

theorem defect?_of_integers (hd : d.integers? = some m) :
    defect? d raw = integerDefect? m raw.toList := by
  simp only [defect?, hd]

theorem check_of_no_integer (hd : d.integers? = some m)
    (h : ¬ ∃ v, DenotesInteger raw.toList v) : check d raw = .error ⟨d, raw, .mismatch⟩ := by
  rw [check, defect?_of_integers hd, integerDefect?, IntegerText.read?_eq_none_iff.mpr h]

theorem check_of_integer (hd : d.integers? = some m) {v : Int}
    (hv : DenotesInteger raw.toList v) :
    check d raw = if m.contains v then .ok () else .error ⟨d, raw, .range (.integers m)⟩ := by
  obtain ⟨t, ht, rfl⟩ := IntegerText.denotesInteger_iff.mp hv
  have hAdmits := IntegerClass.admits_iff (IntegerText.isDigits_of_read? ht)
    (Datatype.integers?_narrow hd)
  rw [check, defect?_of_integers hd, integerDefect?, ht]
  by_cases hMember : m.contains t.value = true
  · simp [hMember, hAdmits.mpr hMember]
  · have hRefused := (not_congr hAdmits).mpr hMember
    simp [hMember, hRefused]

/-- A text that is no integer is a mismatch. Any other text is accepted if the integer it denotes
belongs to the datatype and is out of range if not. -/
theorem check_integer_literal_iff {s : Set Int} (hd : d.integerSet? = some s) (raw : String) :
    ((∃ f, check d raw = .error f ∧ f.rule = "type-mismatch") ↔
        ¬ ∃ v, DenotesInteger raw.toList v) ∧
      ∀ v, DenotesInteger raw.toList v →
        (check d raw = .ok () ↔ v ∈ s) ∧
          ((∃ f, check d raw = .error f ∧ f.rule = "range-error") ↔ v ∉ s) := by
  obtain ⟨m, hm, hSet⟩ := Datatype.exists_integers? hd
  constructor
  · constructor
    · rintro ⟨f, hf, hRule⟩ ⟨v, hv⟩
      rw [check_of_integer hm hv] at hf
      split at hf
      · cases hf
      · cases hf
        simp [LiteralFault.rule] at hRule
    · intro h
      exact ⟨_, check_of_no_integer hm h, rfl⟩
  · intro v hv
    rw [check_of_integer hm hv, ← hSet v]
    split
    · rename_i hMember
      simp [hMember]
    · rename_i hMember
      simp [hMember, LiteralFault.rule]

theorem check_integer_beyond_128_bits :
    Datatype.positiveInteger.integerSet? = some {v | 0 < v} ∧
      DenotesInteger "+0340282366920938463463374607431768211456".toList (2 ^ 128) ∧
      check .positiveInteger "+0340282366920938463463374607431768211456" = .ok () := by
  have hDigits : "0340282366920938463463374607431768211456".toList.all Char.isDigit = true := by
    decide
  have hDenotes : DenotesInteger "+0340282366920938463463374607431768211456".toList (2 ^ 128) :=
    ⟨['+'], false, "0340282366920938463463374607431768211456".toList, .plus, by decide, by decide,
      fun c hc => isDigit_iff.mp (List.all_eq_true.mp hDigits c hc), by decide⟩
  have hCheck := ((check_integer_literal_iff (d := .positiveInteger) rfl _).2 _ hDenotes).1
  exact ⟨rfl, hDenotes, hCheck.mpr (by decide)⟩

end Literal

end AssetShell
