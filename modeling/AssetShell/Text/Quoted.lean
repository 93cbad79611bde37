import AssetShell.Text.Extending
import AssetShell.Text.Unprintable

/-!
# Quoted texts

A text between quotes in which every character can be seen: quotes and backslashes, control
characters, and characters that print as nothing or join their neighbour are written as escapes. A
text that may be absent is shown as `None` or as `Some` with the quoted text.
-/

namespace AssetShell

def inRanges (ranges : List (Nat × Nat)) (n : Nat) : Bool :=
  ranges.any fun r => r.1 ≤ n && n ≤ r.2

/-- Characters of ASCII are decided without the tables. -/
def isShown (c : Char) : Bool :=
  let n := c.toNat
  if n < 127 then 32 ≤ n
  else !inRanges unprintableRanges n && !inRanges extendingRanges n

namespace Quoted

def escapeChar (c : Char) : List Char :=
  if c = '"' then ['\\', '"']
  else if c = '\\' then ['\\', '\\']
  else if c = '\n' then ['\\', 'n']
  else if c = '\r' then ['\\', 'r']
  else if c = '\t' then ['\\', 't']
  else if c.toNat = 0 then ['\\', '0']
  else if isShown c then [c]
  else '\\' :: 'u' :: '\x7b' :: Nat.toDigits 16 c.toNat ++ ['\x7d']

def ofString (s : String) : String :=
  String.ofList ('"' :: s.toList.flatMap escapeChar ++ ['"'])

def ofOption : Option String → String
  | none => "None"
  | some s => "Some(" ++ ofString s ++ ")"

end Quoted

end AssetShell
