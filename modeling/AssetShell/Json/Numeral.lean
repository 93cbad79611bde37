import AssetShell.Json.Value
import AssetShell.Number.Written

/-!
# Numerals

A numeral is written as an optional minus, digits without a leading zero, and an optional fraction
and exponent. Integers of 64 bits keep their value; every other numeral is a double. A numeral
whose size leaves the range of doubles is refused where its value is wanted.
-/

namespace AssetShell

structure Numeral where
  negative : Bool
  whole : List Char
  fraction : Option (List Char)
  exponent : Option Int
  deriving DecidableEq, Repr

namespace Numeral

def sign : List Char → Bool × List Char
  | '-' :: r => (true, r)
  | r => (false, r)

theorem length_sign (cs : List Char) : (sign cs).2.length ≤ cs.length := by
  unfold sign
  split <;> simp

/-- A zero that starts several digits is refused. -/
def isWhole (digits : List Char) : Bool :=
  isDigits digits && (digits.length = 1 || digits.head? ≠ some '0')

def fraction? : List Char → Option (Option (List Char) × List Char)
  | '.' :: r =>
    let digits := r.takeWhile Char.isDigit
    if digits.isEmpty then none else some (some digits, r.dropWhile Char.isDigit)
  | r => some (none, r)

def exponentDigits? (negative : Bool) (cs : List Char) : Option (Option Int × List Char) :=
  let digits := cs.takeWhile Char.isDigit
  if digits.isEmpty then none
  else some (some (IntegerText.value ⟨negative, digits⟩), cs.dropWhile Char.isDigit)

def exponent? : List Char → Option (Option Int × List Char)
  | c :: r =>
    if FloatText.isExponentMark c then
      match r with
      | '-' :: r => exponentDigits? true r
      | '+' :: r => exponentDigits? false r
      | r => exponentDigits? false r
    else some (none, c :: r)
  | [] => some (none, [])

def scan? (cs : List Char) : Option (Numeral × List Char) :=
  let (negative, r) := sign cs
  let whole := r.takeWhile Char.isDigit
  if isWhole whole then
    match fraction? (r.dropWhile Char.isDigit) with
    | none => none
    | some (fraction, r) =>
      match exponent? r with
      | none => none
      | some (exponent, r) => some (⟨negative, whole, fraction, exponent⟩, r)
  else none

theorem length_dropWhile (p : Char → Bool) (cs : List Char) :
    (cs.dropWhile p).length ≤ cs.length :=
  (List.dropWhile_sublist p).length_le

theorem length_fraction {cs r : List Char} {f : Option (List Char)}
    (h : fraction? cs = some (f, r)) : r.length ≤ cs.length := by
  unfold fraction? at h
  split at h
  · rename_i s
    by_cases hs : (s.takeWhile Char.isDigit).isEmpty
    · simp [hs] at h
    · simp only [hs, Bool.false_eq_true, if_false, Option.some.injEq, Prod.mk.injEq] at h
      have := length_dropWhile Char.isDigit s
      rw [← h.2, List.length_cons]
      omega
  · simp only [Option.some.injEq, Prod.mk.injEq] at h
    simp [h.2]

theorem length_exponentDigits {negative : Bool} {cs r : List Char} {e : Option Int}
    (h : exponentDigits? negative cs = some (e, r)) : r.length ≤ cs.length := by
  unfold exponentDigits? at h
  by_cases hs : (cs.takeWhile Char.isDigit).isEmpty
  · simp [hs] at h
  · simp only [hs, Bool.false_eq_true, if_false, Option.some.injEq, Prod.mk.injEq] at h
    rw [← h.2]
    exact length_dropWhile Char.isDigit cs

theorem length_exponent {cs r : List Char} {e : Option Int}
    (h : exponent? cs = some (e, r)) : r.length ≤ cs.length := by
  unfold exponent? at h
  split at h
  · split at h
    · split at h <;> have := length_exponentDigits h <;> simp only [List.length_cons] <;> omega
    · simp only [Option.some.injEq, Prod.mk.injEq] at h
      exact Nat.le_of_eq (by rw [h.2])
  · simp only [Option.some.injEq, Prod.mk.injEq] at h
    exact Nat.le_of_eq (by rw [h.2])

theorem length_scan {cs r : List Char} {n : Numeral} (h : scan? cs = some (n, r)) :
    r.length < cs.length := by
  unfold scan? at h
  simp only at h
  split at h
  · rename_i hw
    split at h
    · cases h
    · rename_i f s hf
      split at h
      · cases h
      · rename_i e t he
        simp only [Option.some.injEq, Prod.mk.injEq] at h
        have h1 := length_fraction hf
        have h2 := length_exponent he
        have h3 := length_sign cs
        have h4 : ((sign cs).2.takeWhile Char.isDigit).length +
            ((sign cs).2.dropWhile Char.isDigit).length = (sign cs).2.length := by
          rw [← List.length_append, List.takeWhile_append_dropWhile]
        have h5 : ((sign cs).2.takeWhile Char.isDigit).length ≠ 0 := by
          simp only [isWhole, Bool.and_eq_true, isDigits_iff] at hw
          simpa using hw.1.1
        rw [← h.2]
        omega
  · cases h

def maxSignificand : Nat := Nat.pow 2 64 - 1

/-- Digits that are appended to a significand while it keeps to 64 bits: the significand, the
digits taken, and those left. -/
def appendDigits (significand : Nat) : List Char → Nat × Nat × List Char
  | [] => (significand, 0, [])
  | c :: r =>
    let next := 10 * significand + (c.toNat - '0'.toNat)
    if next ≤ maxSignificand then
      let (s, taken, rest) := appendDigits next r
      (s, taken + 1, rest)
    else (significand, 0, c :: r)

/-- The leading digits as a significand of 64 bits, and the power of ten that goes with it. -/
def leading (n : Numeral) : Nat × Int :=
  let (s, _, dropped) := appendDigits 0 n.whole
  let (s, taken, _) := appendDigits s (n.fraction.getD [])
  (s, (dropped.length : Int) - taken + n.exponent.getD 0)

/-- Whether the leading digits as a double, times the power of ten as a double, stay finite. -/
def inRange (n : Numeral) : Bool :=
  let (s, e) := n.leading
  s = 0 || e < 0 || e ≤ 308 &&
    (Binary64.magnitudeMul (.ofDecimal false s 0) (.ofDecimal false 1 e)).isFinite

def integerValue (n : Numeral) : Int := IntegerText.value ⟨n.negative, n.whole⟩

/-- Minus zero is a double. -/
def isInteger (n : Numeral) : Bool :=
  n.fraction.isNone && n.exponent.isNone &&
    IntegerClass.contains n.integerValue (.between (-(Nat.pow 2 63)) (Nat.pow 2 64 - 1)) &&
      !(n.negative && n.integerValue = 0)

def toDecimalText (n : Numeral) : DecimalText :=
  ⟨n.negative, n.whole, n.fraction.getD [], n.exponent.getD 0⟩

def value? (n : Numeral) : Option Json.Number :=
  if n.isInteger then some (.integer n.integerValue)
  else if n.inRange then some (.double n.toDecimalText.toBinary64)
  else none

end Numeral

end AssetShell
