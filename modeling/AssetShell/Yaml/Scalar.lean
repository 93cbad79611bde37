import AssetShell.Json.Token
import AssetShell.Number.Written
import AssetShell.Settings.Datum

/-!
# Scalars of YAML

What a scalar without quotes stands for follows from its text, or from the tag before it. A tag that
does not fit the text gives nothing. The words for infinity and for what is not a number are known
as numbers but have no value here.
-/

namespace AssetShell

namespace Yaml

inductive Tag
  | bool
  | int
  | float
  | null
  | other
  deriving DecidableEq, Repr

/-- A word written in a base, with or without a sign. -/
def inBase? (base : Nat) (cs : List Char) : Option Int :=
  let (negative, digits) := FloatText.unsign cs
  let values := digits.map fun c => (Token.hexValue? c).getD base
  if values.isEmpty || !values.all (· < base) then none else
  let n := values.foldl (fun n d => base * n + d) 0
  let v : Int := if negative then -n else n
  if Datum.isWord v then some v else none

/-- Behind a plus a second sign may stand. -/
def integer? : List Char → Option Int
  | '0' :: 'x' :: r => inBase? 16 r
  | '0' :: 'o' :: r => inBase? 8 r
  | '+' :: r => inBase? 10 r
  | cs => inBase? 10 cs

def isNumberWord (s : String) : Bool :=
  [".inf", ".Inf", ".INF", "+.inf", "+.Inf", "+.INF", "-.inf", "-.Inf", "-.INF", ".nan", ".NaN",
    ".NAN"].contains s

/-- A number has a digit. -/
def float? (cs : List Char) : Option Binary64 :=
  if cs.any Char.isDigit then (FloatText.read? cs).map FloatText.toBinary64 else none

def boolean? (s : String) : Option Bool :=
  if s = "true" then some true else if s = "false" then some false else none

def untagged? (s : String) : Option Datum :=
  if ["", "~", "null"].contains s then some .absent
  else if isNumberWord s then none
  else
    match boolean? s, integer? s.toList, float? s.toList with
    | some b, _, _ => some (.boolean b)
    | none, some v, _ => some (.integer v)
    | none, none, some v => some (.float v)
    | none, none, none => some (.text s)

def tagged? (s : String) : Tag → Option Datum
  | .bool => some (((boolean? s).map .boolean).getD .absent)
  | .int => some (((inBase? 10 s.toList).map .integer).getD .absent)
  | .float => if isNumberWord s then none else some (((float? s.toList).map .float).getD .absent)
  | .null => some .absent
  | .other => some (.text s)

def scalar? (tag : Option Tag) (s : String) : Option Datum :=
  match tag with
  | none => untagged? s
  | some tag => tagged? s tag

end Yaml

end AssetShell
