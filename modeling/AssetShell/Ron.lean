import AssetShell.Json.Token
import AssetShell.Number.Written
import AssetShell.Settings.Datum
import AssetShell.Text.Scan

/-!
# Settings in RON

A RON text holds one value: a constant, a number, a text or a single character in quotes, a list, a
table with any values for names, or a group in parentheses, which is a table if its first part has a
name and a list otherwise. Names of types before groups mean nothing.
-/

namespace AssetShell

namespace Ron

def isBlank (c : Char) : Bool := c = ' ' || c = '\t' || c = '\n' || c = '\r'

def skip (cs : List Char) : List Char := Scan.skipComments isBlank (· = '\n') true cs

/-! ## Names -/

def isNameStart (c : Char) : Bool := c.isAlpha || c = '_'

def isNameChar (c : Char) : Bool := c.isAlphanum || c = '_'

/-- Marks that only raw names have. -/
def isRawMark (c : Char) : Bool := c = '.' || c = '+' || c = '-'

def rawName? (cs : List Char) : Option (String × List Char) :=
  let (name, r) := cs.span fun c => isNameChar c || isRawMark c
  if name.isEmpty then none else some (String.ofList name, r)

/-- A raw text is no name, though it starts like one. -/
def name? : Scan String
  | 'r' :: '"' :: _ => none
  | 'r' :: '#' :: r => rawName? r
  | c :: r =>
    if isNameStart c then
      let (name, rest) := (c :: r).span isNameChar
      if (rest.head?.map isRawMark).getD false then none else some (String.ofList name, rest)
    else none
  | [] => none

/-- What follows a word that is not the start of a longer name. -/
def behindWord? (word : List Char) (cs : List Char) : Option (List Char) :=
  match Scan.behind? word cs with
  | some (c :: r) => if isNameChar c then none else some (c :: r)
  | found => found

def constants : List (String × Datum) :=
  [("true", .boolean true), ("false", .boolean false), ("None", .absent),
    ("inf", .float (.infinity false)), ("-inf", .float (.infinity true)), ("NaN", .float .nan)]

def constant? (cs : List Char) : Option (Datum × List Char) :=
  constants.findSome? fun (word, v) => (behindWord? word.toList cs).map (v, ·)

/-! ## Numbers -/

def isIntegerChar (c : Char) : Bool := (Token.hexValue? c).isSome || c = '_'

def isFloatChar (c : Char) : Bool :=
  c.isDigit || c = 'e' || c = 'E' || c = '.' || c = '+' || c = '-' || c = '_'

def based : List Char → Nat × List Char
  | '0' :: 'x' :: r => (16, r)
  | '0' :: 'o' :: r => (8, r)
  | '0' :: 'b' :: r => (2, r)
  | r => (10, r)

/-- The value of digits smaller than a base, among which underscores mean nothing. -/
def digits? (base : Nat) (cs : List Char) : Option Nat :=
  let values := (cs.filter (· ≠ '_')).map fun c => (Token.hexValue? c).getD base
  if values.all (· < base) then some (values.foldl (fun v d => base * v + d) 0) else none

/-- An integer of 64 bits. Without a sign all of them are for its size. -/
def integer? (cs : List Char) : Option (Datum × List Char) := do
  let (negative, r) := FloatText.unsign cs
  let limit : Int := if r.length < cs.length then Nat.pow 2 63 else Nat.pow 2 64
  let (base, r) := based r
  let (digits, rest) := r.span isIntegerChar
  if digits.isEmpty || digits.head? = some '_' then none else
  let n ← digits? base digits
  let v : Int := if negative then -n else n
  if v < -(Nat.pow 2 63) || limit ≤ v then none else return (.ofInt v, rest)

def float? (cs : List Char) : Option (Datum × List Char) := do
  let (word, rest) := cs.span isFloatChar
  let t ← FloatText.read? word
  return (.float t.toBinary64, rest)

/-- Whether more characters go on as in a float than as in an integer. -/
def isFloat (cs : List Char) : Bool :=
  let r := (FloatText.unsign cs).2
  (r.takeWhile isIntegerChar).length < (r.takeWhile isFloatChar).length

def number? (cs : List Char) : Option (Datum × List Char) :=
  if isFloat cs then float? cs else (integer? cs).orElse fun _ => float? cs

/-! ## Texts -/

/-- Up to six digits of a code point before the closing brace. -/
def codePoint? (cs : List Char) : Option (Char × List Char) := do
  let (digits, r) := cs.span fun c => (Token.hexValue? c).isSome
  let n ← digits? 16 digits
  match r with
  | '\x7d' :: r =>
    if digits.isEmpty || 6 < digits.length || !n.isValidChar then none else some (Char.ofNat n, r)
  | _ => none

def escape? : Scan Char
  | 'x' :: a :: b :: r => (Token.unit? '0' '0' a b).map fun n => (Char.ofNat n, r)
  | 'u' :: '\x7b' :: r => codePoint? r
  | '0' :: r => some ('\x00', r)
  | 'n' :: r => some ('\n', r)
  | 'r' :: r => some ('\r', r)
  | 't' :: r => some ('\t', r)
  | c :: r => if c = '\'' || c = '"' || c = '\\' then some (c, r) else none
  | [] => none

/-- A text up to its closing quote. -/
def string? : Scan (List Char)
  | [] => none
  | '"' :: r => some ([], r)
  | '\\' :: r =>
    match escape? r with
    | none => none
    | some (c, rest) =>
      if _h : rest.length ≤ r.length then (string? rest).map fun (cs, rest) => (c :: cs, rest)
      else none
  | c :: r => (string? r).map fun (cs, rest) => (c :: cs, rest)
termination_by cs => cs.length

/-- A text without escapes up to its closing marks. -/
def rawUntil? (close : List Char) : Scan (List Char)
  | [] => none
  | c :: r =>
    match Scan.behind? close (c :: r) with
    | some rest => some ([], rest)
    | none => (rawUntil? close r).map fun (cs, rest) => (c :: cs, rest)

def raw? (cs : List Char) : Option (List Char × List Char) :=
  let (hashes, r) := cs.span (· = '#')
  match r with
  | '"' :: r => rawUntil? ('"' :: hashes) r
  | _ => none

def char? : Scan (List Char)
  | '\\' :: r =>
    match escape? r with
    | some (c, '\'' :: rest) => some ([c], rest)
    | _ => none
  | c :: '\'' :: r => if c = '\'' then none else some ([c], r)
  | _ => none

def text? : Scan (List Char)
  | '"' :: r => string? r
  | 'r' :: r => raw? r
  | '\'' :: r => char? r
  | _ => none

/-! ## Values -/

def isNumberStart (c : Char) : Bool := c.isDigit || c = '+' || c = '-' || c = '.'

/-- A value without parts. A name that no group follows is no value. -/
def simple? (cs : List Char) : Option (Datum × List Char) :=
  match constant? cs, Scan.behind? ['(', ')'] cs, name? cs with
  | some found, _, _ => some found
  | none, some r, _ => some (.absent, r)
  | none, none, some (_, r) => if (skip r).head? = some '(' then none else some (.absent, r)
  | none, none, none =>
    if (cs.head?.map isNumberStart).getD false then number? cs
    else (text? cs).map fun (s, r) => (.text (String.ofList s), r)

def pair? (key? : Scan String) (value? : Scan Datum) (cs : List Char) :
    Option ((String × Datum) × List Char) :=
  match key? cs with
  | none => none
  | some (key, r) =>
    match skip r with
    | ':' :: r => (value? (skip r)).map fun (v, rest) => ((key, v), rest)
    | _ => none

def tableKey? (cs : List Char) : Option (String × List Char) :=
  (text? cs).map fun (s, r) => (String.ofList s, r)

def table? (key? : Scan String) (close : Char) (value? : Scan Datum) (cs : List Char) :
    Option (Datum × List Char) :=
  (Scan.parts? skip close (pair? key? value?) cs).map fun (entries, r) =>
    (.table (Named.ofList entries), r)

def list? (close : Char) (value? : Scan Datum) (cs : List Char) : Option (Datum × List Char) :=
  (Scan.parts? skip close value? cs).map fun (items, r) => (.list items, r)

/-- Whether the first part behind a parenthesis has a name. -/
def startsNamed (cs : List Char) : Bool :=
  match name? (skip cs) with
  | some (_, r) => (skip r).head? = some ':'
  | none => false

def parentheses? (value? : Scan Datum) (cs : List Char) : Option (Datum × List Char) :=
  if startsNamed cs then table? name? ')' value? cs else list? ')' value? cs

/-- The one value of an option, perhaps with a comma behind it. -/
def some? (value? : Scan Datum) (cs : List Char) : Option (Datum × List Char) :=
  match list? ')' value? cs with
  | some (.list [v], r) => some (v, r)
  | _ => none

def group? (value? : Scan Datum) (cs : List Char) : Option (Datum × List Char) :=
  match cs with
  | '[' :: r => list? ']' value? r
  | '\x7b' :: r => table? tableKey? '\x7d' value? r
  | '(' :: r => parentheses? value? r
  | cs =>
    match name? cs with
    | none => none
    | some (name, r) =>
      match skip r with
      | '(' :: r => if name = "Some" then some? value? r else parentheses? value? r
      | _ => none

/-- Groups nest at most so many levels. -/
def value? : Nat → Scan Datum
  | 0, cs => simple? cs
  | levels + 1, cs => (simple? cs).orElse fun _ => group? (value? levels) cs

def maxLevels : Nat := 128

/-! ## Extensions -/

def extensions : List String :=
  ["unwrap_newtypes", "implicit_some", "unwrap_variant_newtypes"]

/-- What follows words between which blanks and comments may stand. -/
def behindAll? : List String → List Char → Option (List Char)
  | [], cs => some cs
  | word :: words, cs => (Scan.behind? word.toList (skip cs)).bind (behindAll? words)

/-- What follows a line that enables extensions of the format. -/
def behindExtensions? (cs : List Char) : Option (List Char) := do
  let r ← behindAll? ["#", "!", "[", "enable", "("] cs
  let (names, r) ← Scan.parts? skip ')' name? r
  if names.isEmpty || !names.all extensions.contains then none else behindAll? ["]"] r

/-- The value behind all such lines. -/
def start? (cs : List Char) : Option (List Char) :=
  match skip cs with
  | '#' :: r =>
    match behindExtensions? ('#' :: r) with
    | none => none
    | some rest => if _h : rest.length < cs.length then start? rest else none
  | r => some r
termination_by cs.length

def ofText? (s : String) : Option Datum := do
  let cs ← start? s.toList
  let (v, r) ← value? maxLevels cs
  if (skip r).isEmpty then some v else none

end Ron

end AssetShell
