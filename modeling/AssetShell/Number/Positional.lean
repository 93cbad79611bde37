import AssetShell.Number.Shortest

/-!
# Positional text of a double

The shortest digits of a double, written out with zeros and without an exponent. A whole number has
no point.
-/

namespace AssetShell

/-- The digits `ds`, the first of them at the place of `10 ^ x`. -/
def placeDigits (ds : List Char) (x : Int) : List Char :=
  if x < 0 then '0' :: '.' :: List.replicate (-x - 1).toNat '0' ++ ds
  else
    let whole := x.toNat + 1
    let rest := ds.drop whole
    ds.take whole ++ List.replicate (whole - ds.length) '0'
      ++ (if rest.isEmpty then [] else '.' :: rest)

def signed (negative : Bool) (cs : List Char) : String :=
  String.ofList (if negative then '-' :: cs else cs)

def Binary64.positionalText : Binary64 → String
  | .nan => "NaN"
  | .infinity negative => signed negative "inf".toList
  | .finite negative m e =>
    if m = 0 then signed negative ['0'] else
    let d := shortest m e
    let ds := Nat.toDigits 10 d.digits
    signed negative (placeDigits (stripTrailingZeros ds) (d.exponent + (ds.length : Int) - 1))

end AssetShell
