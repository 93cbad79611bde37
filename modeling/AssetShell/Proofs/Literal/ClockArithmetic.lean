import AssetShell.Proofs.Literal.CalendarText
import AssetShell.Proofs.Number.IntegerText

/-!
# Clock arithmetic in 32 bits

The nanoseconds of a fraction and the seconds of an offset, computed with integers of 32 bits. A step
whose result does not fit ends the computation, and for what is written in a time no step does.
-/

namespace AssetShell

namespace Word

def unsigned? (n : Nat) : Option Nat := if n < 2 ^ 32 then some n else none

def signed? (v : Int) : Option Int := if -2 ^ 31 ≤ v ∧ v < 2 ^ 31 then some v else none

def push? (value : Nat) (c : Char) : Option Nat := do
  let tens ← unsigned? (10 * value)
  unsigned? (tens + digitValue c)

def ofDigits? (digits : List Char) : Option Nat := digits.foldlM push? 0

/-- A fraction is filled with zeros to nine places and read as one number. -/
def nanos? (digits : List Char) : Option Nat :=
  ofDigits? (digits ++ List.replicate (9 - digits.length) '0')

/-- The sum is computed without a sign and then negated. -/
def signedSum? (negative : Bool) (m n : Nat) : Option Int := do
  let sum ← unsigned? (m + n)
  let v ← signed? sum
  if negative then signed? (-v) else some v

def seconds? : OffsetField → Option Int
  | .utc => some 0
  | .fixed negative hours minutes => do
    let fromHours ← unsigned? (hours * 3600)
    let fromMinutes ← unsigned? (minutes * 60)
    signedSum? negative fromHours fromMinutes

theorem unsigned?_of_lt {n : Nat} (h : n < 2 ^ 32) : unsigned? n = some n := if_pos h

theorem signed?_of_lt {v : Int} (hLow : -2 ^ 31 ≤ v) (hHigh : v < 2 ^ 31) : signed? v = some v :=
  if_pos ⟨hLow, hHigh⟩

theorem push?_of_lt {n : Nat} {c : Char} (h : appendDigit n c < 2 ^ 32) :
    push? n c = some (appendDigit n c) := by
  have hTens : 10 * n < 2 ^ 32 := (Nat.le_add_right _ _).trans_lt h
  rw [push?, unsigned?_of_lt hTens]
  exact unsigned?_of_lt h

theorem foldlM_push?_of_lt {digits : List Char} {n : Nat}
    (h : digits.foldl appendDigit n < 2 ^ 32) :
    digits.foldlM push? n = some (digits.foldl appendDigit n) := by
  induction digits generalizing n with
  | nil => rfl
  | cons c r ih =>
    -- The number read so far never exceeds the number that is read in the end.
    have hStep : appendDigit n c < 2 ^ 32 := (le_foldl_appendDigit (appendDigit n c) r).trans_lt h
    rw [List.foldlM_cons, push?_of_lt hStep]
    exact ih h

theorem nanos?_of_fraction {digits : List Char} {n : Nat}
    (h : Temporal.FractionText ('.' :: digits) n) : nanos? digits = some n := by
  have hNanos := h.nanos_lt
  cases h with
  | written hDigits hLength =>
    have hPadded : digitsValue (digits ++ List.replicate (9 - digits.length) '0') =
        digitsValue digits * 10 ^ (9 - digits.length) := by
      rw [digitsValue_append, digitsValue_zeros, List.length_replicate, Nat.add_zero, Nat.mul_comm]
    rw [← hPadded] at hNanos ⊢
    exact foldlM_push?_of_lt (hNanos.trans (by decide))

theorem signedSum?_of_lt (negative : Bool) {m n : Nat} (h : m + n < 2 ^ 31) :
    signedSum? negative m n = some (withSign negative (m + n)) := by
  have hSum : unsigned? (m + n) = some (m + n) := unsigned?_of_lt (h.trans (by decide))
  have hAhead : signed? ((m + n : Nat) : Int) = some ((m + n : Nat) : Int) :=
    signed?_of_lt (by omega) (by omega)
  refine Option.bind_eq_some_iff.mpr ⟨_, hSum, Option.bind_eq_some_iff.mpr ⟨_, hAhead, ?_⟩⟩
  cases negative with
  | false => rfl
  | true => exact signed?_of_lt (by omega) (by omega)

theorem seconds?_of_lt (negative : Bool) {hours minutes : Nat} (hHours : hours < 100)
    (hMinutes : minutes < 100) :
    seconds? (.fixed negative hours minutes) =
      some (OffsetField.fixed negative hours minutes).seconds := by
  have hFromHours : unsigned? (hours * 3600) = some (hours * 3600) := unsigned?_of_lt (by omega)
  have hFromMinutes : unsigned? (minutes * 60) = some (minutes * 60) := unsigned?_of_lt (by omega)
  have hSeconds : (OffsetField.fixed negative hours minutes).seconds =
      withSign negative (hours * 3600 + minutes * 60) := by
    simp [OffsetField.seconds, withSign]
  rw [hSeconds]
  exact Option.bind_eq_some_iff.mpr ⟨_, hFromHours, Option.bind_eq_some_iff.mpr
    ⟨_, hFromMinutes, signedSum?_of_lt negative (by omega)⟩⟩

theorem seconds?_of_designator {cs : List Char} {f : OffsetField}
    (h : Temporal.DesignatorText cs f) : seconds? f = some f.seconds := by
  cases h with
  | utc => rfl
  | ahead hHours hMinutes => exact seconds?_of_lt false hHours.lt hMinutes.lt
  | behind hHours hMinutes => exact seconds?_of_lt true hHours.lt hMinutes.lt

theorem seconds?_of_time {cs : List Char} {t : TimeFields} (h : Temporal.TimeText cs t)
    {f : OffsetField} (hOffset : t.offset = some f) : seconds? f = some f.seconds := by
  obtain ⟨-, -, -, hText⟩ := h
  cases hOffset
  cases hText with
  | written hDesignator => exact seconds?_of_designator hDesignator

end Word

end AssetShell
