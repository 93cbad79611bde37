import AssetShell.Number.Wide
import AssetShell.Proofs.Number.Digits

/-!
# What integer texts denote

The texts of the form `[+-]?[0-9]+` and the unbounded integer each of them denotes. Reading digit by
digit with 128 bits gives this integer exactly if 128 bits can hold it, and the tests for a sign,
which only look at digits, agree with the sign of this integer.
-/

namespace AssetShell

inductive IsSign : List Char → Bool → Prop
  | none : IsSign [] false
  | plus : IsSign ['+'] false
  | minus : IsSign ['-'] true

def withSign (negative : Bool) (n : Nat) : Int := if negative then -(n : Int) else n

/-- The text is a sign or none and digits, and `v` is the integer they denote in base ten. -/
def DenotesInteger (cs : List Char) (v : Int) : Prop :=
  ∃ sign negative digits, IsSign sign negative ∧ cs = sign ++ digits ∧ digits ≠ [] ∧
    (∀ c ∈ digits, '0' ≤ c ∧ c ≤ '9') ∧
    v = withSign negative (Nat.ofDigits 10 (digits.reverse.map digitValue))

namespace IntegerText

theorem value_eq_withSign (t : IntegerText) : t.value = withSign t.negative (digitsValue t.digits) :=
  rfl

theorem unsigned?_eq_some_iff {negative : Bool} {digits : List Char} {t : IntegerText} :
    unsigned? negative digits = some t ↔ t = ⟨negative, digits⟩ ∧ isDigits digits = true := by
  unfold unsigned?
  split
  · rename_i h
    simp [h, eq_comm]
  · rename_i h
    simp [h]

theorem read?_eq_some_iff {cs : List Char} {t : IntegerText} :
    read? cs = some t ↔
      ∃ sign, IsSign sign t.negative ∧ cs = sign ++ t.digits ∧ isDigits t.digits = true := by
  constructor
  · intro h
    unfold read? at h
    split at h
    · obtain ⟨rfl, hDigits⟩ := unsigned?_eq_some_iff.mp h
      exact ⟨['-'], .minus, rfl, hDigits⟩
    · obtain ⟨rfl, hDigits⟩ := unsigned?_eq_some_iff.mp h
      exact ⟨['+'], .plus, rfl, hDigits⟩
    · obtain ⟨rfl, hDigits⟩ := unsigned?_eq_some_iff.mp h
      exact ⟨[], .none, rfl, hDigits⟩
  · obtain ⟨negative, digits⟩ := t
    rintro ⟨sign, hSign, rfl, hDigits⟩
    have hRead : unsigned? negative digits = some ⟨negative, digits⟩ :=
      unsigned?_eq_some_iff.mpr ⟨rfl, hDigits⟩
    cases hSign with
    | plus => exact hRead
    | minus => exact hRead
    | none =>
      -- A digit in front is neither of the two signs.
      obtain ⟨hNonempty, hAll⟩ := isDigits_iff.mp hDigits
      unfold read?
      split
      · exact absurd (hAll '-' (by simp_all)) (by decide)
      · exact absurd (hAll '+' (by simp_all)) (by decide)
      · exact hRead

theorem isDigits_of_read? {cs : List Char} {t : IntegerText} (h : read? cs = some t) :
    ∀ c ∈ t.digits, c.isDigit = true := by
  obtain ⟨_, _, _, hDigits⟩ := read?_eq_some_iff.mp h
  exact (isDigits_iff.mp hDigits).2

theorem denotesInteger_iff {cs : List Char} {v : Int} :
    DenotesInteger cs v ↔ ∃ t, read? cs = some t ∧ t.value = v := by
  constructor
  · rintro ⟨sign, negative, digits, hSign, rfl, hNonempty, hAll, rfl⟩
    refine ⟨⟨negative, digits⟩, read?_eq_some_iff.mpr ⟨sign, hSign, rfl, ?_⟩, ?_⟩
    · exact isDigits_iff.mpr ⟨hNonempty, fun c hc => isDigit_iff.mpr (hAll c hc)⟩
    · rw [value_eq_withSign, digitsValue_eq_ofDigits]
  · rintro ⟨⟨negative, digits⟩, hRead, rfl⟩
    obtain ⟨sign, hSign, rfl, hDigits⟩ := read?_eq_some_iff.mp hRead
    obtain ⟨hNonempty, hAll⟩ := isDigits_iff.mp hDigits
    refine ⟨sign, negative, digits, hSign, rfl, hNonempty,
      fun c hc => isDigit_iff.mp (hAll c hc), ?_⟩
    rw [value_eq_withSign, digitsValue_eq_ofDigits]

theorem read?_eq_none_iff {cs : List Char} : read? cs = none ↔ ¬ ∃ v, DenotesInteger cs v := by
  constructor
  · rintro hNone ⟨v, hv⟩
    obtain ⟨t, ht, -⟩ := denotesInteger_iff.mp hv
    rw [hNone] at ht
    cases ht
  · intro h
    refine Option.eq_none_iff_forall_ne_some.mpr fun t ht => ?_
    exact h ⟨t.value, denotesInteger_iff.mpr ⟨t, ht, rfl⟩⟩

end IntegerText

theorem DenotesInteger.unique {cs : List Char} {v w : Int} (hv : DenotesInteger cs v)
    (hw : DenotesInteger cs w) : v = w := by
  obtain ⟨t, ht, rfl⟩ := IntegerText.denotesInteger_iff.mp hv
  obtain ⟨u, hu, rfl⟩ := IntegerText.denotesInteger_iff.mp hw
  rw [Option.some.inj (ht.symm.trans hu)]

/-! ## Reading with 128 bits -/

namespace Wide

def Fits (v : Int) : Prop := least ≤ v ∧ v ≤ greatest

instance (v : Int) : Decidable (Fits v) := inferInstanceAs (Decidable (_ ∧ _))

theorem ofInt?_eq_some_iff {v w : Int} : ofInt? v = some w ↔ Fits v ∧ v = w := by
  unfold ofInt? Fits
  split
  · rename_i h
    simp [h]
  · rename_i h
    simp [h]

theorem ofInt?_eq_none_iff {v : Int} : ofInt? v = none ↔ ¬ Fits v := by
  unfold ofInt? Fits
  split
  · rename_i h
    simp [h]
  · rename_i h
    simp [h]

theorem ofInt?_of_fits {v : Int} (h : Fits v) : ofInt? v = some v := ofInt?_eq_some_iff.mpr ⟨h, rfl⟩

theorem Fits.mono {negative : Bool} {m n : Nat} (hmn : m ≤ n) (h : Fits (withSign negative n)) :
    Fits (withSign negative m) := by
  have hLeast : least ≤ 0 := by decide
  have hGreatest : 0 ≤ greatest := by decide
  obtain ⟨hLow, hHigh⟩ := h
  cases negative
  · simp only [withSign, Bool.false_eq_true, if_false] at *
    exact ⟨by omega, by omega⟩
  · simp only [withSign, if_true] at *
    exact ⟨by omega, by omega⟩

/-- No step overflows unless its result does: what ten times the number exceeds, it exceeds too. -/
theorem push?_withSign (negative : Bool) (n : Nat) (c : Char) :
    push? negative (withSign negative n) c = ofInt? (withSign negative (appendDigit n c)) := by
  have hTens : 10 * withSign negative n = withSign negative (10 * n) := by
    cases negative <;> simp [withSign]
  have hSum : (if negative then withSign negative (10 * n) - digitValue c
      else withSign negative (10 * n) + digitValue c) = withSign negative (appendDigit n c) := by
    cases negative <;> simp [withSign, appendDigit]
    omega
  unfold push?
  rw [hTens]
  by_cases hFits : Fits (withSign negative (10 * n))
  · rw [ofInt?_of_fits hFits]
    simp only [Option.bind_eq_bind, Option.bind_some]
    rw [hSum]
  · have hLe : 10 * n ≤ appendDigit n c := Nat.le_add_right _ _
    rw [ofInt?_eq_none_iff.mpr hFits, ofInt?_eq_none_iff.mpr fun h => hFits (h.mono hLe)]
    rfl

theorem foldlM_push? (negative : Bool) (n : Nat) (digits : List Char)
    (h : Fits (withSign negative n)) :
    digits.foldlM (push? negative) (withSign negative n) =
      ofInt? (withSign negative (digits.foldl appendDigit n)) := by
  induction digits generalizing n with
  | nil => exact (ofInt?_of_fits h).symm
  | cons c r ih =>
    rw [List.foldlM_cons, List.foldl_cons, push?_withSign]
    by_cases hFits : Fits (withSign negative (appendDigit n c))
    · rw [ofInt?_of_fits hFits]
      exact ih (appendDigit n c) hFits
    · have hLe := le_foldl_appendDigit (appendDigit n c) r
      rw [ofInt?_eq_none_iff.mpr hFits, ofInt?_eq_none_iff.mpr fun h => hFits (h.mono hLe)]
      rfl

end Wide

namespace IntegerText

theorem wide?_eq (t : IntegerText) : t.wide? = Wide.ofInt? t.value := by
  have hZero : Wide.Fits (withSign t.negative 0) := by
    cases t.negative <;> decide
  have hFold := Wide.foldlM_push? t.negative 0 t.digits hZero
  have hStart : withSign t.negative 0 = 0 := by
    cases t.negative <;> rfl
  rwa [hStart] at hFold

/-! ## Signs -/

variable {t : IntegerText}

theorem isZero_iff (h : ∀ c ∈ t.digits, c.isDigit = true) : t.isZero = true ↔ t.value = 0 := by
  have hValue : t.value = 0 ↔ digitsValue t.digits = 0 := by
    rw [value_eq_withSign, withSign]
    split <;> omega
  rw [hValue, digitsValue_eq_zero_iff h]
  simp [isZero]

theorem isNegative_iff (h : ∀ c ∈ t.digits, c.isDigit = true) :
    t.isNegative = true ↔ t.value < 0 := by
  have hZero := isZero_iff h
  rw [isNegative, Bool.and_eq_true, Bool.not_eq_true', ← Bool.not_eq_true, hZero, value_eq_withSign,
    withSign]
  cases t.negative <;> simp

theorem isPositive_iff (h : ∀ c ∈ t.digits, c.isDigit = true) :
    t.isPositive = true ↔ 0 < t.value := by
  have hZero := isZero_iff h
  rw [isPositive, Bool.and_eq_true, Bool.not_eq_true', Bool.not_eq_true', ← Bool.not_eq_true,
    ← Bool.not_eq_true, hZero, value_eq_withSign, withSign]
  cases t.negative <;> simp

end IntegerText

namespace IntegerClass

/-- A range that 128 bits can hold. -/
def Narrow : IntegerClass → Prop
  | .between lo hi => Wide.least ≤ lo ∧ hi ≤ Wide.greatest
  | _ => True

theorem narrow_signed {width : Nat} (h : width ≤ 128) : (signed width).Narrow := by
  have hPower : Nat.pow 2 (width - 1) ≤ Nat.pow 2 127 := Nat.pow_le_pow_right (by decide) (by omega)
  exact ⟨by unfold Wide.least; omega, by unfold Wide.greatest; omega⟩

theorem narrow_unsigned {width : Nat} (h : width ≤ 127) : (unsigned width).Narrow := by
  have hPower : Nat.pow 2 width ≤ Nat.pow 2 127 := Nat.pow_le_pow_right (by decide) h
  exact ⟨by decide, by unfold Wide.greatest; omega⟩

theorem admits_iff {t : IntegerText} (h : ∀ c ∈ t.digits, c.isDigit = true) {m : IntegerClass}
    (hm : m.Narrow) : m.admits t = true ↔ m.contains t.value = true := by
  cases m with
  | between lo hi =>
    obtain ⟨hLow, hHigh⟩ := hm
    rw [admits, IntegerText.wide?_eq, Option.any_eq_true]
    simp only [contains, Bool.and_eq_true, decide_eq_true_eq, Wide.ofInt?_eq_some_iff]
    constructor
    · rintro ⟨v, ⟨-, rfl⟩, hv⟩
      exact hv
    · intro hv
      exact ⟨t.value, ⟨⟨by omega, by omega⟩, rfl⟩, hv⟩
  | nonPositive =>
    rw [admits, Bool.not_eq_true', ← Bool.not_eq_true, IntegerText.isPositive_iff h]
    simp [contains]
  | negative =>
    rw [admits, IntegerText.isNegative_iff h]
    simp [contains]
  | nonNegative =>
    rw [admits, Bool.not_eq_true', ← Bool.not_eq_true, IntegerText.isNegative_iff h]
    simp [contains]
  | positive =>
    rw [admits, IntegerText.isPositive_iff h]
    simp [contains]

end IntegerClass

end AssetShell
