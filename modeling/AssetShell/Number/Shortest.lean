import AssetShell.Number.Binary64

/-!
# Shortest decimal text of a double

The text of a finite double has the fewest digits that read back as the same double, and of those
the digits nearest to its value. Exponents from -5 to 15 are written out with a point; others
follow the digits after an `e` with their sign.
-/

namespace AssetShell

/-- The digits `digits`, read as one number, times ten to the power `exponent`. -/
structure DecimalPoint where
  digits : Nat
  exponent : Int
  deriving DecidableEq, Repr

namespace Binary64

/-- The numbers that round to `significand * 2 ^ exponent`, as `low / den` to `high / den`, around
the value `mid / den`. The ends belong to it if the significand is even. -/
structure Basin where
  low : Nat
  mid : Nat
  high : Nat
  den : Nat
  closed : Bool

def basin (significand : Nat) (exponent : Int) : Basin :=
  let below := if significand = Nat.pow 2 52 ∧ minExponent < exponent then 1 else 2
  let up := Nat.pow 2 (exponent - 2).toNat
  { low := (4 * significand - below) * up
    mid := 4 * significand * up
    high := (4 * significand + 2) * up
    den := Nat.pow 2 (2 - exponent).toNat
    closed := significand % 2 = 0 }

def Basin.holds (b : Basin) (num den : Nat) : Bool :=
  let x := num * b.den
  if b.closed then b.low * den ≤ x && x ≤ b.high * den
  else b.low * den < x && x < b.high * den

/-- The grid of multiples of `10 ^ k`: the point `c * 10 ^ k` as a quotient. -/
def gridPoint (c : Nat) (k : Int) : Nat × Nat := (c * Nat.pow 10 k.toNat, Nat.pow 10 (-k).toNat)

/-- The point of the grid of multiples of `10 ^ k` that lies in the basin and is nearest to its
middle; of two equally near ones the even one. -/
def Basin.onGrid? (b : Basin) (k : Int) : Option Nat :=
  let num := b.mid * Nat.pow 10 (-k).toNat
  let den := b.den * Nat.pow 10 k.toNat
  let c := num / den
  let inside (c : Nat) : Bool := let (x, y) := gridPoint c k; b.holds x y
  match inside c, inside (c + 1) with
  | true, true => some (roundHalfEven num den)
  | true, false => some c
  | false, true => some (c + 1)
  | false, false => none

/-- The exponent `x` with `10 ^ x ≤ num / den < 10 ^ (x + 1)`, found by counting up from a number
that is not above it. -/
def leadingExponent (num den : Nat) : Nat → Int → Int
  | 0, x => x
  | steps + 1, x =>
    let (a, b) := gridPoint 1 (x + 1)
    if a * den ≤ num * b then leadingExponent num den steps (x + 1) else x

/-- Tries the grids of `n`, `n + 1`, … digits; `tries` bounds their number. -/
def shortestFrom (b : Basin) (x : Int) : Nat → Nat → DecimalPoint
  | 0, _ => ⟨b.mid / b.den, 0⟩
  | tries + 1, n =>
    let k := x - (n : Int) + 1
    match b.onGrid? k with
    | some c => ⟨c, k⟩
    | none => shortestFrom b x tries (n + 1)

/-- The shortest digits of a finite double that is not zero. Seventeen digits always suffice. -/
def shortest (significand : Nat) (exponent : Int) : DecimalPoint :=
  let b := basin significand exponent
  let guess : Int := ((significand.log2 : Int) + exponent) * 30103 / 100000 - 1
  shortestFrom b (leadingExponent b.mid b.den 4 guess) 17 1

end Binary64

/-- The layout of a number with the digits `ds` and the decimal exponent `x` of the first one. -/
def layoutDigits (ds : List Char) (x : Int) : List Char :=
  if -5 ≤ x ∧ x < 0 then
    '0' :: '.' :: List.replicate (-x - 1).toNat '0' ++ ds
  else if 0 ≤ x ∧ x ≤ 15 then
    let whole := x.toNat + 1
    let padded := ds ++ List.replicate (whole - ds.length) '0'
    let rest := padded.drop whole
    padded.take whole ++ '.' :: (if rest.isEmpty then ['0'] else rest)
  else
    let mark := if x < 0 then ['e', '-'] else ['e', '+']
    let first := ds.take 1
    let rest := ds.drop 1
    first ++ (if rest.isEmpty then [] else '.' :: rest) ++ mark ++ Nat.toDigits 10 x.natAbs

def stripTrailingZeros (ds : List Char) : List Char := (ds.reverse.dropWhile (· = '0')).reverse

/-- The text of a finite double; infinities and what is not a number have none. -/
def Binary64.text? : Binary64 → Option String
  | .finite negative m e =>
    let sign := if negative then ['-'] else []
    if m = 0 then some (String.ofList (sign ++ ['0', '.', '0'])) else
    let d := shortest m e
    let ds := Nat.toDigits 10 d.digits
    let x := d.exponent + (ds.length : Int) - 1
    some (String.ofList (sign ++ layoutDigits (stripTrailingZeros ds) x))
  | _ => none

end AssetShell
