import AssetShell.Json.Token
import AssetShell.Yaml.Line

/-!
# Texts of YAML

A text stands without quotes, between apostrophes, or between quotes with escapes. In any of them it
may run over several lines, which are folded: blanks at the ends of lines mean nothing, and a line
end is a blank.
-/

namespace AssetShell

namespace Yaml

def isGroupMark (c : Char) : Bool :=
  c = ',' || c = '[' || c = ']' || c = '\x7b' || c = '\x7d'

def atGroupMark (cs : List Char) : Bool := (cs.head?.map isGroupMark).getD false

/-! ## Without quotes -/

/-- Whether a text without quotes may start here; `inGroup` says that brackets are around it. -/
def startsPlain (inGroup : Bool) : List Char → Bool
  | [] => false
  | c :: r =>
    if c = '-' || c = ':' then !(atSpace r || (inGroup && atGroupMark r))
    else if c = '?' then !atSpace r
    else if c = '|' || c = '>' then inGroup
    else !(isSpace c || isGroupMark c || "#&*!'\"%@`".toList.contains c)

/-- Whether a colon before this text ends a key. -/
def endsKey (inGroup : Bool) (cs : List Char) : Bool := atSpace cs || (inGroup && atGroupMark cs)

/-- The text on a line up to what cannot belong to it. -/
def plainChars (inGroup : Bool) : Bool → List Char → List Char
  | _, [] => []
  | spaced, c :: r =>
    if c = '\n' || (spaced && c = '#') || (inGroup && isGroupMark c)
        || (c = ':' && endsKey inGroup r) then []
    else c :: plainChars inGroup (isBlank c) r

def plainLine (inGroup spaced : Bool) (cs : List Char) : List Char × List Char :=
  let line := ((plainChars inGroup spaced cs).reverse.dropWhile isBlank).reverse
  (line, cs.drop line.length)

/-- The further lines of a text without quotes. Outside of brackets they keep to the least column. -/
def plainLines? (inGroup : Bool) (least : Nat) (cs : List Char) :
    Option (List Char × List Char) :=
  match lineEnds? least least 0 (cs.dropWhile isBlank) with
  | none => none
  | some (count, column, start) =>
    let (line, r) := plainLine inGroup true start
    if count = 0 || isMarker column start || (!inGroup && column < least) || line.isEmpty then
      some ([], cs)
    else if _h : r.length < cs.length then
      (plainLines? inGroup least r).map fun (more, rest) => (folded count ++ line ++ more, rest)
    else none
termination_by cs.length

def plain? (inGroup : Bool) (least : Nat) (cs : List Char) : Option (List Char × List Char) :=
  if startsPlain inGroup cs then
    let (line, r) := plainLine inGroup false cs
    (plainLines? inGroup least r).map fun (more, rest) => (line ++ more, rest)
  else none

/-! ## Between marks -/

/-- What blanks and line ends between marks stand for. The next line keeps to the least column and is
no marker. -/
def space? (least : Nat) (cs : List Char) : Option (List Char × List Char) :=
  let (blanks, r) := cs.span isBlank
  match lineEnds? least least 0 r with
  | none => none
  | some (count, column, rest) =>
    if count = 0 then some (blanks, rest)
    else if column < least || isMarker column rest then none
    else some (folded count, rest)

/-- A text up to the apostrophe that closes it; two of them stand for one. -/
def single? (least : Nat) : Scan (List Char)
  | [] => none
  | '\'' :: '\'' :: r => (single? least r).map fun (cs, rest) => ('\'' :: cs, rest)
  | '\'' :: r => some ([], r)
  | c :: r =>
    if isSpace c then
      match space? least (c :: r) with
      | none => none
      | some (space, rest) =>
        if _h : rest.length ≤ r.length then
          (single? least rest).map fun (cs, rest) => (space ++ cs, rest)
        else none
    else (single? least r).map fun (cs, rest) => (c :: cs, rest)
termination_by cs => cs.length

def namedEscapes : List (Char × Char) :=
  [('0', '\x00'), ('a', '\x07'), ('b', '\x08'), ('t', '\t'), ('\t', '\t'), ('n', '\n'),
    ('v', '\x0b'), ('f', '\x0c'), ('r', '\r'), ('e', '\x1b'), (' ', ' '), ('"', '"'), ('/', '/'),
    ('\\', '\\'), ('N', '\u0085'), ('_', '\u00a0'), ('L', '\u2028'), ('P', '\u2029')]

def codePoint? (n : Nat) : Option Char := if n.isValidChar then some (Char.ofNat n) else none

def escape? : Scan Char
  | 'x' :: a :: b :: r => (Token.unit? '0' '0' a b).map fun n => (Char.ofNat n, r)
  | 'u' :: a :: b :: c :: d :: r => do
    let c ← codePoint? (← Token.unit? a b c d)
    return (c, r)
  | 'U' :: a :: b :: c :: d :: e :: f :: g :: h :: r => do
    let high ← Token.unit? a b c d
    let low ← Token.unit? e f g h
    let c ← codePoint? (high * 65536 + low)
    return (c, r)
  | c :: r => (namedEscapes.find? (·.1 = c)).map fun (_, c) => (c, r)
  | [] => none

/-- What a backslash and the text behind it stand for. At the end of a line it joins the lines, but
for empty ones. -/
def escaped? (least : Nat) : Scan (List Char)
  | '\n' :: r =>
    match lineEnds? least 0 0 r with
    | none => none
    | some (count, column, rest) =>
      if column < least || isMarker column rest then none
      else some (List.replicate count '\n', rest)
  | cs => (escape? cs).map fun (c, r) => ([c], r)

def double? (least : Nat) : Scan (List Char)
  | [] => none
  | '"' :: r => some ([], r)
  | c :: r =>
    match (if c = '\\' then escaped? least r else if isSpace c then space? least (c :: r)
      else some ([c], r)) with
    | none => none
    | some (start, rest) =>
      if _h : rest.length ≤ r.length then
        (double? least rest).map fun (cs, rest) => (start ++ cs, rest)
      else none
termination_by cs => cs.length

def quoted? (least : Nat) : Scan (List Char)
  | '"' :: r => double? least r
  | '\'' :: r => single? least r
  | _ => none

end Yaml

end AssetShell
