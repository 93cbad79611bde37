import AssetShell.Number.Integer
import Mathlib.Data.List.Induction
import Mathlib.Data.Nat.Digits.Defs

/-!
# Decimal digits

The ten ASCII digits as a range of characters, and the number that digits denote as a sum of powers
of ten.
-/

namespace AssetShell

theorem isDigit_iff {c : Char} : c.isDigit = true ↔ '0' ≤ c ∧ c ≤ '9' := by
  simp only [Char.isDigit, Bool.and_eq_true, decide_eq_true_eq]
  rfl

theorem toNat_of_isDigit {c : Char} (h : c.isDigit = true) : 48 ≤ c.toNat ∧ c.toNat ≤ 57 := by
  obtain ⟨hLow, hHigh⟩ := isDigit_iff.mp h
  exact ⟨hLow, hHigh⟩

theorem digitValue_lt {c : Char} (h : c.isDigit = true) : digitValue c < 10 := by
  have := toNat_of_isDigit h
  change c.toNat - 48 < 10
  omega

theorem digitValue_eq_zero_iff {c : Char} (h : c.isDigit = true) :
    digitValue c = 0 ↔ c = '0' := by
  constructor
  · intro hZero
    have := toNat_of_isDigit h
    change c.toNat - 48 = 0 at hZero
    exact Char.toNat_inj.mp (by change c.toNat = 48; omega)
  · rintro rfl
    rfl

theorem le_foldl_appendDigit (n : Nat) (digits : List Char) : n ≤ digits.foldl appendDigit n := by
  induction digits generalizing n with
  | nil => exact le_rfl
  | cons c r ih =>
    have hStep : n ≤ appendDigit n c := by
      unfold appendDigit
      omega
    exact hStep.trans (ih (appendDigit n c))

theorem foldl_appendDigit_eq_zero_iff (n : Nat) (digits : List Char) :
    digits.foldl appendDigit n = 0 ↔ n = 0 ∧ ∀ c ∈ digits, digitValue c = 0 := by
  induction digits generalizing n with
  | nil => simp
  | cons c r ih =>
    rw [List.foldl_cons, ih, List.forall_mem_cons]
    unfold appendDigit
    constructor
    · rintro ⟨hSum, hRest⟩
      exact ⟨by omega, by omega, hRest⟩
    · rintro ⟨rfl, hHead, hRest⟩
      exact ⟨by omega, hRest⟩

theorem digitsValue_eq_zero_iff {digits : List Char} (h : ∀ c ∈ digits, c.isDigit = true) :
    digitsValue digits = 0 ↔ ∀ c ∈ digits, c = '0' := by
  rw [digitsValue, foldl_appendDigit_eq_zero_iff]
  constructor
  · rintro ⟨-, hAll⟩ c hc
    exact (digitValue_eq_zero_iff (h c hc)).mp (hAll c hc)
  · intro hAll
    exact ⟨rfl, fun c hc => (digitValue_eq_zero_iff (h c hc)).mpr (hAll c hc)⟩

theorem digitsValue_eq_ofDigits (digits : List Char) :
    digitsValue digits = Nat.ofDigits 10 (digits.reverse.map digitValue) := by
  induction digits using List.reverseRecOn with
  | nil => rfl
  | append_singleton r c ih =>
    rw [digitsValue, List.foldl_append, ← digitsValue, ih]
    simp [appendDigit, Nat.ofDigits_cons, Nat.add_comm]

theorem digitsValue_lt {digits : List Char} (h : ∀ c ∈ digits, c.isDigit = true) :
    digitsValue digits < 10 ^ digits.length := by
  have hDigits : ∀ d ∈ digits.reverse.map digitValue, d < 10 := by
    intro d hd
    obtain ⟨c, hc, rfl⟩ := List.mem_map.mp hd
    exact digitValue_lt (h c (List.mem_reverse.mp hc))
  rw [digitsValue_eq_ofDigits]
  simpa using Nat.ofDigits_lt_base_pow_length (by omega) hDigits

theorem isDigit_of_mem_toDigits {n : Nat} {c : Char} (h : c ∈ Nat.toDigits 10 n) :
    c.isDigit = true :=
  Nat.isDigit_of_mem_toDigits (by decide) (by decide) h

theorem digitsValue_toDigits (n : Nat) : digitsValue (Nat.toDigits 10 n) = n :=
  Nat.ofDigitChars_toDigits (by decide) (by decide)

end AssetShell
