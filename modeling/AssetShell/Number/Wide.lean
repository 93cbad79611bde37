import AssetShell.Number.Integer

/-!
# Integers of 128 bits

The digits of an integer text are read one by one, away from zero in the direction of the sign, and
a step whose result needs more than 128 bits ends the reading. The members of a class are found
without an integer of any size: a range asks the integer of 128 bits, a sign asks the digits.
-/

namespace AssetShell

namespace Wide

def least : Int := -(Nat.pow 2 127)

def greatest : Int := Nat.pow 2 127 - 1

def ofInt? (v : Int) : Option Int := if least ≤ v ∧ v ≤ greatest then some v else none

def push? (negative : Bool) (v : Int) (c : Char) : Option Int := do
  let tens ← ofInt? (10 * v)
  ofInt? (if negative then tens - digitValue c else tens + digitValue c)

end Wide

def IntegerText.wide? (t : IntegerText) : Option Int := t.digits.foldlM (Wide.push? t.negative) 0

def IntegerClass.admits (t : IntegerText) : IntegerClass → Bool
  | .between lo hi => t.wide?.any fun v => lo ≤ v && v ≤ hi
  | .nonPositive => !t.isPositive
  | .negative => t.isNegative
  | .nonNegative => !t.isNegative
  | .positive => t.isPositive

end AssetShell
