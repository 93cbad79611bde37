import AssetShell.Text.Scan
import AssetShell.Toml.Node
import AssetShell.Toml.Text
import AssetShell.Toml.Word

/-!
# Reading values of TOML

Line ends are single characters here. Blanks, line ends and comments may stand around the items of an
array; a table in braces stays on its line and has no comma behind its last entry. Arrays and such
tables nest up to a limit, and so do the names of a dotted key.
-/

namespace AssetShell

namespace Toml

def maxLevels : Nat := 79

def skipBlanks (cs : List Char) : List Char := cs.dropWhile Text.isBlank

/-- Skips blanks, line ends and comments. What may not stand in a comment ends it. -/
def skipGap (inComment : Bool) : List Char → List Char
  | [] => []
  | c :: r =>
    if c = '\n' then skipGap false r
    else if inComment then if Text.isPlain c then skipGap true r else c :: r
    else if Text.isBlank c then skipGap false r
    else if c = '#' then skipGap true r
    else c :: r

/-! ## Keys -/

def isBareChar (c : Char) : Bool := c.isAlphanum || c = '-' || c = '_'

def name? : Scan String
  | '"' :: r => (Text.basic? r).map fun (cs, rest) => (String.ofList cs, rest)
  | '\'' :: r => (Text.literal? r).map fun (cs, rest) => (String.ofList cs, rest)
  | cs =>
    let (bare, r) := cs.span isBareChar
    if bare.isEmpty then none else some (String.ofList bare, r)

def names? (cs : List Char) : Option (List String × List Char) :=
  match name? (skipBlanks cs) with
  | none => none
  | some (name, r) =>
    match skipBlanks r with
    | '.' :: r =>
      if _h : r.length < cs.length then (names? r).map fun (names, rest) => (name :: names, rest)
      else none
    | r => some ([name], r)
termination_by cs.length

def key? (cs : List Char) : Option (List String × List Char) :=
  match names? cs with
  | some (names, r) => if names.length ≤ maxLevels then some (names, r) else none
  | none => none

/-! ## Values -/

def pair? (value? : Scan Toml) (cs : List Char) : Option ((List String × Toml) × List Char) :=
  match key? cs with
  | some (path, '=' :: r) => (value? (skipBlanks r)).map fun (v, rest) => ((path, v), rest)
  | _ => none

/-- The entries of a table in braces, read where an entry must follow. -/
def pairs? (value? : Scan Toml) (cs : List Char) :
    Option (List (List String × Toml) × List Char) :=
  match pair? value? cs with
  | none => none
  | some (pair, r) =>
    match skipBlanks r with
    | '\x7d' :: r => some ([pair], r)
    | ',' :: r =>
      if _h : r.length < cs.length then
        (pairs? value? r).map fun (pairs, rest) => (pair :: pairs, rest)
      else none
    | _ => none
termination_by cs.length

def inline? (value? : Scan Toml) (cs : List Char) : Option (Toml × List Char) :=
  match skipBlanks cs with
  | '\x7d' :: r => some (.table [], r)
  | start =>
    match pairs? value? start with
    | some (pairs, r) => (ofPairs? pairs).map (·, r)
    | none => none

def scalar? : Scan Toml
  | '"' :: r => (Text.read? ('"' :: r)).map fun (cs, rest) => (.string (String.ofList cs), rest)
  | '\'' :: r => (Text.read? ('\'' :: r)).map fun (cs, rest) => (.string (String.ofList cs), rest)
  | cs => Word.read? cs

def value? : Nat → Scan Toml
  | 0, cs => scalar? cs
  | levels + 1, '[' :: r =>
    (Scan.parts? (skipGap false) ']' (value? levels) r).map fun (items, rest) => (.array items, rest)
  | levels + 1, '\x7b' :: r => inline? (value? levels) r
  | _ + 1, cs => scalar? cs

end Toml

end AssetShell
