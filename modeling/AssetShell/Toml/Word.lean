import AssetShell.Json.Token
import AssetShell.Literal.Calendar
import AssetShell.Toml.Basic

/-!
# Words of TOML

Booleans, numbers and moments are written as words of letters, digits and a few marks. Digits may be
grouped by single underscores. Integers have 64 bits and a sign; a positive number too large for a
double is no number.
-/

namespace AssetShell

namespace Toml.Word

def isWordChar (c : Char) : Bool := c.isAlphanum || c = '_' || c = '+' || c = '-' || c = '.' || c = ':'

/-- The digits without their underscores. Each underscore stands between two digits. -/
def ungrouped? (isDigit : Char → Bool) : List Char → Option (List Char)
  | [] => none
  | [c] => if isDigit c then some [c] else none
  | c :: '_' :: r => if isDigit c then (ungrouped? isDigit r).map (c :: ·) else none
  | c :: d :: r => if isDigit c then (ungrouped? isDigit (d :: r)).map (c :: ·) else none

def isGroupedChar (c : Char) : Bool := c.isDigit || c = '_'

/-- Decimal digits; a zero that starts several of them is refused. -/
def whole? (cs : List Char) : Option (List Char) := do
  let digits ← ungrouped? Char.isDigit cs
  if Numeral.isWhole digits then some digits else none

def wordInteger : IntegerClass := .signed 64

def integerOf? (v : Int) : Option Toml := if wordInteger.contains v then some (.integer v) else none

/-- The value of digits in a base, for digits that are smaller than it. -/
def inBase? (base : Nat) (cs : List Char) : Option Toml := do
  let isDigit (c : Char) : Bool := ((Token.hexValue? c).getD base) < base
  let digits ← ungrouped? isDigit cs
  integerOf? (digits.foldl (fun value c => base * value + (Token.hexValue? c).getD 0) 0 : Nat)

def integer? : List Char → Option Toml
  | '0' :: 'x' :: r => inBase? 16 r
  | '0' :: 'o' :: r => inBase? 8 r
  | '0' :: 'b' :: r => inBase? 2 r
  | cs => do
    let (negative, r) := FloatText.unsign cs
    let digits ← whole? r
    integerOf? (IntegerText.value ⟨negative, digits⟩)

def fraction? : List Char → Option (List Char × List Char)
  | '.' :: r => do
    let (grouped, rest) := r.span isGroupedChar
    let digits ← ungrouped? Char.isDigit grouped
    return (digits, rest)
  | r => some ([], r)

def exponent? : List Char → Option Int
  | [] => some 0
  | c :: r =>
    if FloatText.isExponentMark c then do
      let (negative, r) := FloatText.unsign r
      let digits ← ungrouped? Char.isDigit r
      return IntegerText.value ⟨negative, digits⟩
    else none

def floatOf? (v : Binary64) : Option Toml :=
  if v = .infinity false then none else some (.float v)

/-- A number with a fraction or an exponent, or a word for infinity or for what is not a number. -/
def float? (cs : List Char) : Option Toml := do
  let (negative, r) := FloatText.unsign cs
  if r = "inf".toList then return .float (.infinity negative)
  if r = "nan".toList then return .float .nan
  let (grouped, r) := r.span isGroupedChar
  let whole ← whole? grouped
  if r.isEmpty then failure
  let (fraction, r) ← fraction? r
  let exponent ← exponent? r
  floatOf? (DecimalText.toBinary64 ⟨negative, whole, fraction, exponent⟩)

/-! ## Moments -/

def twoDigits? (lo hi : Nat) (a b : Char) : Option Nat :=
  if a.isDigit && b.isDigit && lo ≤ digitsValue [a, b] && digitsValue [a, b] ≤ hi then
    some (digitsValue [a, b])
  else none

/-- A date of the calendar, with its text, and what follows it. -/
def date? : List Char → Option (List Char × List Char)
  | a :: b :: c :: d :: '-' :: e :: f :: '-' :: g :: h :: r =>
    if [a, b, c, d].all Char.isDigit then do
      let month ← twoDigits? 1 12 e f
      let _ ← twoDigits? 1 (daysInMonth (digitsValue [a, b, c, d]) month) g h
      return ([a, b, c, d, '-', e, f, '-', g, h], r)
    else none
  | _ => none

/-- A fraction of a second is cut behind its ninth digit and shown without zeros at its end. -/
def shownFraction (digits : List Char) : List Char :=
  match ((digits.take 9).reverse.dropWhile (· = '0')).reverse with
  | [] => []
  | shown => '.' :: shown

def secondFraction? : List Char → Option (List Char × List Char)
  | '.' :: r =>
    let (digits, rest) := r.span Char.isDigit
    if digits.isEmpty then none else some (shownFraction digits, rest)
  | r => some ([], r)

/-- A time of a day; the sixtieth second is allowed. -/
def clock? : List Char → Option (List Char × List Char)
  | a :: b :: ':' :: c :: d :: ':' :: e :: f :: r => do
    let _ ← twoDigits? 0 23 a b
    let _ ← twoDigits? 0 59 c d
    let _ ← twoDigits? 0 60 e f
    let (fraction, rest) ← secondFraction? r
    return ([a, b, ':', c, d, ':', e, f] ++ fraction, rest)
  | _ => none

def offset? : List Char → Option (List Char)
  | [] => some []
  | ['Z'] => some ['Z']
  | ['z'] => some ['Z']
  | [sign, a, b, ':', c, d] =>
    if sign = '+' ∨ sign = '-' then do
      let hours ← twoDigits? 0 23 a b
      let minutes ← twoDigits? 0 59 c d
      return (if hours = 0 ∧ minutes = 0 then '+' else sign) :: [a, b, ':', c, d]
    else none
  | _ => none

def moment? (cs : List Char) : Option Toml :=
  match date? cs with
  | some (date, []) => some (.moment (String.ofList date))
  | some (date, mark :: r) =>
    if mark = 'T' ∨ mark = 't' then do
      let (clock, rest) ← clock? r
      let offset ← offset? rest
      return .moment (String.ofList (date ++ 'T' :: clock ++ offset))
    else none
  | none =>
    match clock? cs with
    | some (clock, []) => some (.moment (String.ofList clock))
    | _ => none

def value? (cs : List Char) : Option Toml :=
  if cs = "true".toList then some (.boolean true)
  else if cs = "false".toList then some (.boolean false)
  else ((integer? cs).or (float? cs)).or (moment? cs)

/-- The word that a text starts with. A date and a time of day may stand apart by a blank. -/
def read? (cs : List Char) : Option (Toml × List Char) :=
  let (word, r) := cs.span isWordChar
  match date? word, r with
  | some (_, []), ' ' :: rest =>
    let (clock, r) := rest.span isWordChar
    if clock.isEmpty then (value? word).map (·, ' ' :: rest)
    else (value? (word ++ 'T' :: clock)).map (·, r)
  | _, _ => (value? word).map (·, r)

end Toml.Word

end AssetShell
