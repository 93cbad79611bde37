/-!
# Double precision numbers

A double is an exact dyadic number, an infinity, or not a number. A quotient of two naturals is
rounded to the nearest double, a tie going to the even significand. All arithmetic is exact.
-/

namespace AssetShell

/-- The number `± significand * 2 ^ exponent`. The exponent is at least `-1074`, and a larger one
goes with a significand of exactly 53 bits. -/
inductive Binary64
  | finite (negative : Bool) (significand : Nat) (exponent : Int)
  | infinity (negative : Bool)
  | nan
  deriving DecidableEq, Repr

namespace Binary64

def minExponent : Int := -1074

def maxExponent : Int := 971

def zero (negative : Bool) : Binary64 := .finite negative 0 minExponent

def isFinite : Binary64 → Bool
  | .finite .. => true
  | _ => false

/-- The nearest natural to `num / den`, the even one of two that are equally near. -/
def roundHalfEven (num den : Nat) : Nat :=
  let q := num / den
  let r := num % den
  if 2 * r < den then q
  else if den < 2 * r then q + 1
  else if q % 2 = 0 then q else q + 1

/-- The quotient `num / den / 2 ^ e`, again as a quotient. -/
def scaleDown (num den : Nat) (e : Int) : Nat × Nat :=
  (num * Nat.pow 2 (-e).toNat, den * Nat.pow 2 e.toNat)

/-- The exponent at which `num / den` has an integral part of 53 bits, but never below the
smallest exponent. -/
def exponentOf (num den : Nat) : Int :=
  let guess : Int := (num.log2 : Int) - den.log2 - 52
  let (a, b) := scaleDown num den guess
  max minExponent (if a / b < Nat.pow 2 52 then guess - 1 else guess)

def ofRatio (negative : Bool) (num den : Nat) : Binary64 :=
  if num = 0 then zero negative else
  let e := exponentOf num den
  let (a, b) := scaleDown num den e
  let m := roundHalfEven a b
  let (m, e) := if m = Nat.pow 2 53 then (Nat.pow 2 52, e + 1) else (m, e)
  if maxExponent < e then .infinity negative else .finite negative m e

/-- The double nearest to `m * 10 ^ e`. Numbers of more than 400 places before the point are
infinite and numbers that start more than 400 places behind it are zero, so no large power is
formed for them. -/
def ofDecimal (negative : Bool) (m : Nat) (e : Int) : Binary64 :=
  let places : Int := (Nat.toDigits 10 m).length + e
  if m = 0 ∨ places < -400 then zero negative
  else if 400 < places then .infinity negative
  else ofRatio negative (m * Nat.pow 10 e.toNat) (Nat.pow 10 (-e).toNat)

def magnitudeMul : Binary64 → Binary64 → Binary64
  | .finite _ m e, .finite _ n f =>
    let (a, b) := scaleDown (m * n) 1 (-(e + f))
    ofRatio false a b
  | _, _ => .infinity false

/-- The 64 bits of a number, or nothing for what is not a number. -/
def bits? : Binary64 → Option Nat
  | .finite negative m e =>
    let sign := if negative then Nat.pow 2 63 else 0
    if m < Nat.pow 2 52 then some (sign + m)
    else some (sign + (e - minExponent + 1).toNat * Nat.pow 2 52 + (m - Nat.pow 2 52))
  | .infinity negative => some ((if negative then Nat.pow 2 63 else 0) + 2047 * Nat.pow 2 52)
  | .nan => none

end Binary64

end AssetShell
