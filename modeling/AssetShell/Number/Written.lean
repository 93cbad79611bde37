import AssetShell.Number.Binary64
import AssetShell.Number.Integer

/-!
# Written numbers

Two ways to write a number that need not be an integer. A floating text is a signed decimal with an
optional exponent, or one of the words for infinity and for what is not a number. A decimal text
allows underscores between digits but needs a scale of 64 bits.
-/

namespace AssetShell

/-- A decimal as written: sign, digits before and after the point, exponent. -/
structure DecimalText where
  negative : Bool
  whole : List Char
  fraction : List Char
  exponent : Int
  deriving DecidableEq, Repr

def DecimalText.significand (t : DecimalText) : Nat := digitsValue (t.whole ++ t.fraction)

def DecimalText.scaledExponent (t : DecimalText) : Int := t.exponent - t.fraction.length

def DecimalText.toBinary64 (t : DecimalText) : Binary64 :=
  .ofDecimal t.negative t.significand t.scaledExponent

inductive FloatText
  | decimal (t : DecimalText)
  | infinity (negative : Bool)
  | nan
  deriving DecidableEq, Repr

namespace FloatText

def unsign : List Char → Bool × List Char
  | '-' :: r => (true, r)
  | '+' :: r => (false, r)
  | r => (false, r)

def isExponentMark (c : Char) : Bool := c = 'e' || c = 'E'

/-- The exponent that follows the digits: nothing, or a mark and an integer text. -/
def exponent? : List Char → Option Int
  | [] => some 0
  | c :: r => if isExponentMark c then (IntegerText.read? r).map IntegerText.value else none

/-- A point that may follow the whole digits, and the digits behind it. -/
def fractionOf : List Char → List Char × List Char
  | '.' :: r => r.span Char.isDigit
  | r => ([], r)

def decimal? (negative : Bool) (cs : List Char) : Option DecimalText :=
  let (whole, r) := cs.span Char.isDigit
  let (fraction, r) := fractionOf r
  if whole.isEmpty && fraction.isEmpty then none
  else (exponent? r).map fun e => ⟨negative, whole, fraction, e⟩

/-- The words are read in any case of their ASCII letters. -/
def word? (negative : Bool) (cs : List Char) : Option FloatText :=
  let word := cs.map Char.toLower
  if word = "inf".toList ∨ word = "infinity".toList then some (.infinity negative)
  else if word = "nan".toList then some .nan
  else none

def read? (cs : List Char) : Option FloatText :=
  let (negative, r) := unsign cs
  match word? negative r with
  | some t => some t
  | none => (decimal? negative r).map .decimal

def toBinary64 : FloatText → Binary64
  | .decimal t => t.toBinary64
  | .infinity negative => .infinity negative
  | .nan => .nan

end FloatText

/-- The base of a decimal literal with its point taken out, and the number of places that were
behind the point. A point at the very end counts no place; an underscore is no place. -/
structure DecimalBase where
  joined : List Char
  places : Nat
  deriving DecidableEq, Repr

namespace DecimalBase

def ofChars (base : List Char) : DecimalBase :=
  let (lead, r) := base.span (· ≠ '.')
  match r with
  | [] => ⟨lead, 0⟩
  | _ :: trail => ⟨lead ++ trail, (trail.filter (· ≠ '_')).length⟩

/-- Digits and underscores, the first of them a digit. -/
def isGrouped : List Char → Bool
  | [] => false
  | c :: r => c.isDigit && r.all fun c => c.isDigit || c = '_'

/-- One sign may precede the digits. -/
def isSigned : List Char → Bool
  | '-' :: r => isGrouped r
  | '+' :: r => isGrouped r
  | r => isGrouped r

end DecimalBase

/-- A decimal literal: a base, and after the first `e` or `E` an exponent. The number of places less
the exponent is the scale, which has 64 bits. -/
def isDecimalLiteral (cs : List Char) : Bool :=
  let (base, r) := cs.span fun c => !FloatText.isExponentMark c
  match FloatText.exponent? r with
  | none => false
  | some e =>
    let b := DecimalBase.ofChars base
    let scale : Int := b.places - e
    DecimalBase.isSigned b.joined && IntegerClass.contains scale (.signed 64)

end AssetShell
