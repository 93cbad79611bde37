/-!
# Integer texts

An integer text is an optional sign and at least one ASCII digit. Its value is the unbounded
integer it denotes; sets of integers are given by a closed range or by a sign.
-/

namespace AssetShell

def digitValue (c : Char) : Nat := c.toNat - '0'.toNat

def appendDigit (value : Nat) (c : Char) : Nat := 10 * value + digitValue c

/-- The number that a list of decimal digits denotes, the first digit weighing most. -/
def digitsValue (digits : List Char) : Nat := digits.foldl appendDigit 0

def isDigits (cs : List Char) : Bool := !cs.isEmpty && cs.all Char.isDigit

theorem isDigits_iff {cs : List Char} :
    isDigits cs = true ↔ cs ≠ [] ∧ ∀ c ∈ cs, c.isDigit = true := by
  simp [isDigits]

structure IntegerText where
  negative : Bool
  digits : List Char
  deriving DecidableEq, Repr

namespace IntegerText

def unsigned? (negative : Bool) (digits : List Char) : Option IntegerText :=
  if isDigits digits then some ⟨negative, digits⟩ else none

def read? : List Char → Option IntegerText
  | '-' :: digits => unsigned? true digits
  | '+' :: digits => unsigned? false digits
  | digits => unsigned? false digits

def value (t : IntegerText) : Int :=
  if t.negative then -(digitsValue t.digits : Int) else digitsValue t.digits

def isZero (t : IntegerText) : Bool := t.digits.all (· = '0')

/-- A zero is not negative, whatever its sign. -/
def isNegative (t : IntegerText) : Bool := t.negative && !t.isZero

def isPositive (t : IntegerText) : Bool := !t.negative && !t.isZero

end IntegerText

/-- A closed range, or one of the four sets named by a sign. -/
inductive IntegerClass
  | between (lo hi : Int)
  | nonPositive
  | negative
  | nonNegative
  | positive
  deriving DecidableEq, Repr

namespace IntegerClass

/-- The integers of so many bits, one of which is the sign. -/
def signed (width : Nat) : IntegerClass :=
  .between (-(Nat.pow 2 (width - 1))) (Nat.pow 2 (width - 1) - 1)

def unsigned (width : Nat) : IntegerClass := .between 0 (Nat.pow 2 width - 1)

def contains (v : Int) : IntegerClass → Bool
  | .between lo hi => lo ≤ v && v ≤ hi
  | .nonPositive => v ≤ 0
  | .negative => v < 0
  | .nonNegative => 0 ≤ v
  | .positive => 0 < v

def describe : IntegerClass → String
  | .between lo hi => s!"within [{lo}, {hi}]"
  | .nonPositive => "<= 0"
  | .negative => "< 0"
  | .nonNegative => ">= 0"
  | .positive => "> 0"

end IntegerClass

end AssetShell
