import AssetShell.Json.Value

/-!
# Printing values

A value is printed on one line without blanks, or over several lines with two blanks for each level.
Strings escape quotes, backslashes and the characters below the blank, and nothing else.
-/

namespace AssetShell

def hexDigit (n : Nat) : Char := (Nat.digitChar n)

namespace Json

def escapeChar (c : Char) : List Char :=
  if c = '"' then ['\\', '"']
  else if c = '\\' then ['\\', '\\']
  else if c = '\n' then ['\\', 'n']
  else if c = '\r' then ['\\', 'r']
  else if c = '\t' then ['\\', 't']
  else if c = '\x08' then ['\\', 'b']
  else if c = '\x0c' then ['\\', 'f']
  else if c.toNat < 32 then
    ['\\', 'u', '0', '0', hexDigit (c.toNat / 16), hexDigit (c.toNat % 16)]
  else [c]

def stringChars (s : String) : List Char := '"' :: s.toList.flatMap escapeChar ++ ['"']

def Number.text : Number → String
  | .integer v => toString v
  | .double d => d.text?.getD "null"

/-- What stands between the tokens: line breaks before items and at the end of a group, and the mark
between a name and its value. -/
structure Layout where
  newline : Nat → List Char
  colon : List Char

def Layout.compact : Layout := ⟨fun _ => [], [':']⟩

def Layout.pretty : Layout := ⟨fun level => '\n' :: List.replicate (2 * level) ' ', [':', ' ']⟩

mutual

def chars (l : Layout) (level : Nat) : Json → List Char
  | .null => "null".toList
  | .bool true => "true".toList
  | .bool false => "false".toList
  | .number n => n.text.toList
  | .string s => stringChars s
  | .array [] => ['[', ']']
  | .array (v :: r) =>
    '[' :: itemsChars l (level + 1) (v :: r) ++ l.newline level ++ [']']
  | .object [] => ['\x7b', '\x7d']
  | .object (m :: r) =>
    '\x7b' :: membersChars l (level + 1) (m :: r) ++ l.newline level ++ ['\x7d']

def itemsChars (l : Layout) (level : Nat) : List Json → List Char
  | [] => []
  | [v] => l.newline level ++ chars l level v
  | v :: w :: r => l.newline level ++ chars l level v ++ ',' :: itemsChars l level (w :: r)

def membersChars (l : Layout) (level : Nat) : List (String × Json) → List Char
  | [] => []
  | [(name, v)] => l.newline level ++ stringChars name ++ l.colon ++ chars l level v
  | (name, v) :: m :: r =>
    l.newline level ++ stringChars name ++ l.colon ++ chars l level v
      ++ ',' :: membersChars l level (m :: r)

end

def print (l : Layout) (v : Json) : String := String.ofList (chars l 0 v)

def compactText (v : Json) : String := print .compact v.canonical

def prettyText (v : Json) : String := print .pretty v.canonical

end Json

end AssetShell
