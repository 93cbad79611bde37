import AssetShell.Proofs.Number.IntegerText

/-!
# Canonical texts of integers

An integer is written with a minus if it is negative and with digits that do not start with a zero,
unless it is zero itself.
-/

namespace AssetShell

/-- The text denotes the integer without a plus, without a zero in front of other digits and without
a minus before zero. -/
structure IsCanonicalInteger (cs : List Char) (v : Int) : Prop where
  denotes : DenotesInteger cs v
  noPlus : cs.head? ≠ some '+'
  noLeadingZero : ∀ r, cs = '0' :: r ∨ cs = '-' :: '0' :: r → cs = ['0']

/-- The digits of a number start with those of its quotient by ten. -/
theorem head?_toDigits_of_ten_le {n : Nat} (h : 10 ≤ n) :
    (Nat.toDigits 10 n).head? = (Nat.toDigits 10 (n / 10)).head? := by
  have hSome : (Nat.toDigits 10 (n / 10)).head?.isSome = true :=
    List.isSome_head?.mpr Nat.toDigits_ne_nil
  rw [Nat.toDigits_of_base_le (by decide) h, List.head?_append, Option.or_of_isSome hSome]

theorem head?_toDigits_ne_zero {n : Nat} (h : n ≠ 0) : (Nat.toDigits 10 n).head? ≠ some '0' := by
  induction n using Nat.strongRecOn with
  | ind n ih =>
    by_cases hSmall : n < 10
    · rw [Nat.toDigits_of_lt_base hSmall, List.head?_cons]
      exact fun hHead => h (Nat.digitChar_eq_zero.mp (Option.some.inj hHead))
    · rw [head?_toDigits_of_ten_le (by omega)]
      exact ih (n / 10) (by omega) (by omega)

theorem denotesInteger_toDigits {sign : List Char} {negative : Bool} (h : IsSign sign negative)
    (n : Nat) : DenotesInteger (sign ++ Nat.toDigits 10 n) (withSign negative n) := by
  refine ⟨sign, negative, Nat.toDigits 10 n, h, rfl, Nat.toDigits_ne_nil, ?_, ?_⟩
  · intro c hc
    exact isDigit_iff.mp (isDigit_of_mem_toDigits hc)
  · rw [← digitsValue_eq_ofDigits, digitsValue_toDigits]

theorem toList_toString_natCast (n : Nat) : (toString (n : Int)).toList = Nat.toDigits 10 n := by
  rw [Int.toString_eq_repr, Int.repr_eq_if, if_pos (Int.natCast_nonneg n), Int.toNat_natCast,
    Nat.toList_repr]

theorem toList_toString_neg {n : Nat} (h : n ≠ 0) :
    (toString (-(n : Int))).toList = '-' :: Nat.toDigits 10 n := by
  rw [Int.toString_eq_repr, Int.repr_eq_if, if_neg (by omega), Int.neg_neg, Int.toNat_natCast,
    String.toList_append, Nat.toList_repr]
  rfl

theorem isCanonicalInteger_natCast (n : Nat) :
    IsCanonicalInteger (Nat.toDigits 10 n) (n : Int) where
  denotes := denotesInteger_toDigits .none n
  noPlus hPlus := by
    have hDigit := isDigit_of_mem_toDigits (List.mem_of_mem_head? hPlus)
    cases hDigit
  noLeadingZero r h := by
    by_cases hZero : n = 0
    · rw [hZero]
      exact Nat.toDigits_zero 10
    · rcases h with hDigits | hDigits
      · exact absurd (congrArg List.head? hDigits) (head?_toDigits_ne_zero hZero)
      · have hDigit := isDigit_of_mem_toDigits (hDigits ▸ List.mem_cons_self)
        cases hDigit

theorem isCanonicalInteger_neg {n : Nat} (hn : n ≠ 0) :
    IsCanonicalInteger ('-' :: Nat.toDigits 10 n) (-(n : Int)) where
  denotes := denotesInteger_toDigits .minus n
  noPlus hPlus := by cases hPlus
  noLeadingZero r h := by
    rcases h with hDigits | hDigits
    · cases hDigits
    · have hRest := (List.cons.inj hDigits).2
      exact absurd (congrArg List.head? hRest) (head?_toDigits_ne_zero hn)

theorem isCanonicalInteger_toString (v : Int) : IsCanonicalInteger (toString v).toList v := by
  rcases Int.eq_nat_or_neg v with ⟨n, rfl | rfl⟩
  · rw [toList_toString_natCast]
    exact isCanonicalInteger_natCast n
  · by_cases hn : n = 0
    · subst hn
      exact isCanonicalInteger_natCast 0
    · rw [toList_toString_neg hn]
      exact isCanonicalInteger_neg hn

end AssetShell
