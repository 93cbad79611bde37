import AssetShell.Json.Printer

/-!
# Writing TOML

A string has one of four forms. It is a basic string if that needs no escapes, else a literal string
if it may be one, else one of the two forms that may run over several lines, and in the end a basic
form with escapes. An array of several strings has one line for each.
-/

namespace AssetShell

namespace Toml

def escapeChar (c : Char) : List Char :=
  if c = '"' then ['\\', '"']
  else if c = '\\' then ['\\', '\\']
  else if c = '\x08' then ['\\', 'b']
  else if c = '\t' then ['\\', 't']
  else if c = '\n' then ['\\', 'n']
  else if c = '\x0c' then ['\\', 'f']
  else if c = '\r' then ['\\', 'r']
  else if c.toNat < 32 ∨ c.toNat = 127 then
    ['\\', 'u', '0', '0', (hexDigit (c.toNat / 16)).toUpper, (hexDigit (c.toNat % 16)).toUpper]
  else [c]

/-- Controls that only an escape can write. -/
def isControl (c : Char) : Bool := c ≠ '\t' && c ≠ '\n' && (c.toNat < 32 || c.toNat = 127)

/-- The length of the longest run of a mark, where `run` of them stand in front. -/
def longestRun (mark : Char) (run : Nat) : List Char → Nat
  | [] => run
  | c :: r => if c = mark then longestRun mark (run + 1) r else max run (longestRun mark 0 r)

inductive StringForm
  | basic
  | literal
  | basicLines
  | literalLines
  deriving DecidableEq, Repr

namespace StringForm

/-- No form but a basic one has escapes, and one mark alone closes the forms of one line. -/
def admits (cs : List Char) : StringForm → Bool
  | .basic => !cs.any (fun c => isControl c || c = '\\' || c = '\n' || c = '"')
  | .literal => !cs.any (fun c => isControl c || c = '\n' || c = '\'')
  | .basicLines => !cs.any (fun c => isControl c || c = '\\') && longestRun '"' 0 cs ≤ 2
  | .literalLines => !cs.any isControl && longestRun '\'' 0 cs ≤ 2

def all : List StringForm := [.basic, .literal, .basicLines, .literalLines]

/-- The form of a string that no form admits as it is. -/
def escaped (cs : List Char) : StringForm := if cs.contains '\n' then .basicLines else .basic

def ofChars (cs : List Char) : StringForm := (all.find? (·.admits cs)).getD (escaped cs)

end StringForm

/-- The lines of a basic string, where `quotes` quotes stand in front. Of three quotes in a row the
last is escaped. -/
def lineChars (quotes : Nat) : List Char → List Char
  | [] => []
  | c :: r =>
    if c = '"' then
      if quotes < 2 then c :: lineChars (quotes + 1) r else escapeChar c ++ lineChars 0 r
    else if c = '\n' then c :: lineChars 0 r
    else escapeChar c ++ lineChars 0 r

/-- A line end behind the opening marks is not part of the string; it stands before a string that has
lines. -/
def lineStart (cs : List Char) : List Char := if cs.contains '\n' then ['\n'] else []

def formChars (cs : List Char) : StringForm → List Char
  | .basic => '"' :: cs.flatMap escapeChar ++ ['"']
  | .literal => '\'' :: cs ++ ['\'']
  | .basicLines => ['"', '"', '"'] ++ lineStart cs ++ lineChars 0 cs ++ ['"', '"', '"']
  | .literalLines => ['\'', '\'', '\''] ++ lineStart cs ++ cs ++ ['\'', '\'', '\'']

def stringChars (cs : List Char) : List Char := formChars cs (.ofChars cs)

def boolChars (b : Bool) : List Char := if b then "true".toList else "false".toList

def itemLine (s : String) : List Char := "    ".toList ++ stringChars s.toList ++ [',', '\n']

def arrayChars : List String → List Char
  | [] => ['[', ']']
  | [s] => '[' :: stringChars s.toList ++ [']']
  | items => '[' :: '\n' :: items.flatMap itemLine ++ [']']

def headerLine (name : String) : List Char := '[' :: name.toList ++ [']', '\n']

def entryLine (name : String) (v : List Char) : List Char :=
  name.toList ++ " = ".toList ++ v ++ ['\n']

end Toml

end AssetShell
