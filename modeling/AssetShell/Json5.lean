import AssetShell.Json.Token
import AssetShell.Settings.Datum
import AssetShell.Text.Blank
import AssetShell.Text.Scan

/-!
# Settings in JSON5

JSON5 widens the form of JSON by comments, keys without quotes, strings between apostrophes, more
escapes, more ways to write a number, and commas behind last parts. Integers are words; hexadecimal
ones have no sign and 32 bits.
-/

namespace AssetShell

namespace Json5

def isLineEnd (c : Char) : Bool := c = '\n' || c = '\r' || c = '\u2028' || c = '\u2029'

def isBlank (c : Char) : Bool := (isWhiteSpace c && c ≠ '\u0085') || c = '\ufeff'

def skip (cs : List Char) : List Char := Scan.skipComments isBlank isLineEnd false cs

/-! ## Strings and keys -/

/-- The character behind a backslash. Most characters stand for themselves there. -/
def escape? (c : Char) : Option Char :=
  if c = 'b' then some '\x08'
  else if c = 'f' then some '\x0c'
  else if c = 'n' then some '\n'
  else if c = 'r' then some '\r'
  else if c = 't' then some '\t'
  else if c = 'v' then some '\x0b'
  else if c = '0' then some '\x00'
  else if c.isDigit || c = 'x' || c = 'u' then none
  else some c

def put (piece : Option Token.Piece) (read : Option (List Token.Piece × List Char)) :
    Option (List Token.Piece × List Char) :=
  match piece, read with
  | some piece, some (pieces, rest) => some (piece :: pieces, rest)
  | _, _ => none

/-- The pieces of a string up to its closing mark. A backslash joins lines. -/
def pieces? (mark : Char) : Scan (List Token.Piece)
  | [] => none
  | '\\' :: '\r' :: '\n' :: r => pieces? mark r
  | '\\' :: 'x' :: a :: b :: r => put ((Token.unit? '0' '0' a b).map .unit) (pieces? mark r)
  | '\\' :: 'u' :: a :: b :: c :: d :: r => put ((Token.unit? a b c d).map .unit) (pieces? mark r)
  | '\\' :: c :: r =>
    if isLineEnd c then pieces? mark r else put ((escape? c).map .char) (pieces? mark r)
  | c :: r =>
    if c = mark then some ([], r)
    else if isLineEnd c then none
    else put (some (.char c)) (pieces? mark r)

def textOf? (pieces : List Token.Piece) : Option String :=
  (Token.assemble? pieces).map String.ofList

def string? (mark : Char) (cs : List Char) : Option (String × List Char) := do
  let (pieces, r) ← pieces? mark cs
  let s ← textOf? pieces
  return (s, r)

/-- Beyond ASCII every character that is not blank counts as a letter. -/
def isNameStart (c : Char) : Bool :=
  c.isAlpha || c = '$' || c = '_' || (127 < c.toNat && !isBlank c)

/-- The pieces of a key without quotes. -/
def namePieces? : Scan (List Token.Piece)
  | '\\' :: 'u' :: a :: b :: c :: d :: r => put ((Token.unit? a b c d).map .unit) (namePieces? r)
  | c :: r =>
    if isNameStart c || c.isDigit then put (some (.char c)) (namePieces? r) else some ([], c :: r)
  | [] => some ([], [])

def key? : Scan String
  | '"' :: r => string? '"' r
  | '\'' :: r => string? '\'' r
  | c :: r =>
    if isNameStart c || c = '\\' then do
      let (pieces, rest) ← namePieces? (c :: r)
      if pieces.isEmpty then none else return (← textOf? pieces, rest)
    else none
  | [] => none

/-! ## Numbers -/

def integer? (v : Int) : Option Datum := if Datum.isWord v then some (.integer v) else none

def hexadecimal? (cs : List Char) : Option (Datum × List Char) :=
  let (digits, r) := cs.span fun c => (Token.hexValue? c).isSome
  let v := digits.foldl (fun v c => 16 * v + (Token.hexValue? c).getD 0) 0
  if digits.isEmpty || Nat.pow 2 32 ≤ v then none else some (.integer v, r)

def fraction : List Char → Option (List Char) × List Char
  | '.' :: r => let (digits, rest) := r.span Char.isDigit; (some digits, rest)
  | r => (none, r)

def decimal? (negative : Bool) (cs : List Char) : Option (Datum × List Char) := do
  let (whole, r) := cs.span Char.isDigit
  let (fraction, r) := fraction r
  let places := fraction.getD []
  let (exponent, r) ← Numeral.exponent? r
  if !(Numeral.isWhole whole || (whole.isEmpty && !places.isEmpty)) then none
  else if fraction.isNone && exponent.isNone then
    return (← integer? (IntegerText.value ⟨negative, whole⟩), r)
  else
    let v := DecimalText.toBinary64 ⟨negative, whole, places, exponent.getD 0⟩
    if v.isFinite then return (.float v, r) else none

def unsigned? (negative : Bool) : Scan Datum
  | 'N' :: 'a' :: 'N' :: r => some (.float .nan, r)
  | 'I' :: 'n' :: 'f' :: 'i' :: 'n' :: 'i' :: 't' :: 'y' :: r => some (.float (.infinity negative), r)
  | cs => decimal? negative cs

/-- A plus stands before digits only. -/
def number? : Scan Datum
  | '0' :: 'x' :: r => hexadecimal? r
  | '0' :: 'X' :: r => hexadecimal? r
  | '+' :: r => decimal? false r
  | '-' :: r => unsigned? true r
  | cs => unsigned? false cs

/-! ## Values -/

def pair? (value? : Scan Datum) (cs : List Char) : Option ((String × Datum) × List Char) :=
  match key? cs with
  | none => none
  | some (key, r) =>
    match skip r with
    | ':' :: r => (value? (skip r)).map fun (v, rest) => ((key, v), rest)
    | _ => none

def value? : Nat → Scan Datum
  | 0, _ => none
  | _ + 1, 'n' :: 'u' :: 'l' :: 'l' :: r => some (.absent, r)
  | _ + 1, 't' :: 'r' :: 'u' :: 'e' :: r => some (.boolean true, r)
  | _ + 1, 'f' :: 'a' :: 'l' :: 's' :: 'e' :: r => some (.boolean false, r)
  | _ + 1, '"' :: r => (string? '"' r).map fun (s, rest) => (.text s, rest)
  | _ + 1, '\'' :: r => (string? '\'' r).map fun (s, rest) => (.text s, rest)
  | levels + 1, '[' :: r =>
    (Scan.parts? skip ']' (value? levels) r).map fun (items, rest) => (.list items, rest)
  | levels + 1, '\x7b' :: r =>
    (Scan.parts? skip '\x7d' (pair? (value? levels)) r).map fun (entries, rest) =>
      (.table (Named.ofList entries), rest)
  | _ + 1, cs => number? cs

def ofText? (s : String) : Option Datum :=
  match value? (s.length + 1) (skip s.toList) with
  | some (v, r) => if (skip r).isEmpty then some v else none
  | none => none

end Json5

end AssetShell
