import AssetShell.Json.Numeral

/-!
# Tokens

A text is cut into brackets, marks, words, numerals and strings, with blanks between them. Where no
token can be read the tokens end with a stray one. A string whose escapes leave half a surrogate
pair is a token without contents.
-/

namespace AssetShell

inductive Token
  | openObject
  | closeObject
  | openArray
  | closeArray
  | colon
  | comma
  | null
  | bool (value : Bool)
  | number (value : Numeral)
  | string (value : Option String)
  | stray
  deriving DecidableEq, Repr

namespace Token

def isBlank (c : Char) : Bool := c = ' ' || c = '\t' || c = '\n' || c = '\r'

/-- What stands for one unit of a string: a character, or the number of an escape. -/
inductive Piece
  | char (c : Char)
  | unit (n : Nat)
  deriving DecidableEq, Repr

def hexValue? (c : Char) : Option Nat :=
  if c.isDigit then some (c.toNat - '0'.toNat)
  else if 'a' ≤ c ∧ c ≤ 'f' then some (c.toNat - 'a'.toNat + 10)
  else if 'A' ≤ c ∧ c ≤ 'F' then some (c.toNat - 'A'.toNat + 10)
  else none

def unit? (a b c d : Char) : Option Nat := do
  let a ← hexValue? a
  let b ← hexValue? b
  let c ← hexValue? c
  let d ← hexValue? d
  return ((a * 16 + b) * 16 + c) * 16 + d

def escape? (c : Char) : Option Char :=
  if c = '"' ∨ c = '\\' ∨ c = '/' then some c
  else if c = 'b' then some '\x08'
  else if c = 'f' then some '\x0c'
  else if c = 'n' then some '\n'
  else if c = 'r' then some '\r'
  else if c = 't' then some '\t'
  else none

/-- The pieces up to the closing quote, and the text behind it. -/
def scanString : List Char → Option (List Piece × List Char)
  | [] => none
  | '"' :: r => some ([], r)
  | '\\' :: 'u' :: a :: b :: c :: d :: r =>
    match unit? a b c d, scanString r with
    | some n, some (pieces, rest) => some (.unit n :: pieces, rest)
    | _, _ => none
  | '\\' :: e :: r =>
    match escape? e, scanString r with
    | some c, some (pieces, rest) => some (.char c :: pieces, rest)
    | _, _ => none
  | c :: r =>
    if c.toNat < 32 then none else
    match scanString r with
    | some (pieces, rest) => some (.char c :: pieces, rest)
    | none => none

theorem length_scanString {cs r : List Char} {pieces : List Piece}
    (h : scanString cs = some (pieces, r)) : r.length < cs.length := by
  fun_induction scanString cs generalizing pieces r with
  | case1 => cases h
  | case2 => simp_all
  | case3 a b c d s n ps rest hs hn ih =>
    cases h
    have := ih hs
    simp only [List.length_cons]
    omega
  | case4 => cases h
  | case5 e s _ c ps rest hs hc ih =>
    cases h
    have := ih hs
    simp only [List.length_cons]
    omega
  | case6 => cases h
  | case7 => cases h
  | case8 c s _ _ _ _ ps rest hs ih =>
    cases h
    have := ih hs
    simp only [List.length_cons]
    omega
  | case9 => cases h

def isHighSurrogate (n : Nat) : Bool := 0xD800 ≤ n && n ≤ 0xDBFF

def isLowSurrogate (n : Nat) : Bool := 0xDC00 ≤ n && n ≤ 0xDFFF

/-- The characters of the pieces. Two surrogates in order are one character. -/
def assemble? : List Piece → Option (List Char)
  | [] => some []
  | .char c :: r => (assemble? r).map (c :: ·)
  | .unit high :: r =>
    if isHighSurrogate high then
      match r with
      | .unit low :: r =>
        if isLowSurrogate low then
          (assemble? r).map (Char.ofNat (0x10000 + (high - 0xD800) * 0x400 + (low - 0xDC00)) :: ·)
        else none
      | _ => none
    else if isLowSurrogate high then none
    else (assemble? r).map (Char.ofNat high :: ·)

def next? : List Char → Option (Token × List Char)
  | '\x7b' :: r => some (.openObject, r)
  | '\x7d' :: r => some (.closeObject, r)
  | '[' :: r => some (.openArray, r)
  | ']' :: r => some (.closeArray, r)
  | ':' :: r => some (.colon, r)
  | ',' :: r => some (.comma, r)
  | 'n' :: 'u' :: 'l' :: 'l' :: r => some (.null, r)
  | 't' :: 'r' :: 'u' :: 'e' :: r => some (.bool true, r)
  | 'f' :: 'a' :: 'l' :: 's' :: 'e' :: r => some (.bool false, r)
  | '"' :: r =>
    match scanString r with
    | some (pieces, rest) => some (.string ((assemble? pieces).map String.ofList), rest)
    | none => none
  | cs =>
    match Numeral.scan? cs with
    | some (n, rest) => some (.number n, rest)
    | none => none

theorem length_next {cs r : List Char} {t : Token} (h : next? cs = some (t, r)) :
    r.length < cs.length := by
  unfold next? at h
  split at h
  case h_10 =>
    split at h
    · rename_i hs
      have := length_scanString hs
      simp_all only [Option.some.injEq, Prod.mk.injEq, List.length_cons]
      omega
    · cases h
  case h_11 =>
    split at h
    · rename_i hs
      have := Numeral.length_scan hs
      simp_all only [Option.some.injEq, Prod.mk.injEq]
    · cases h
  all_goals
    simp only [Option.some.injEq, Prod.mk.injEq] at h
    rw [← h.2]
    simp only [List.length_cons]
    omega

def ofChars (cs : List Char) : List Token :=
  match _h : cs.dropWhile isBlank with
  | [] => []
  | c :: r =>
    match _hn : next? (c :: r) with
    | none => [.stray]
    | some (t, rest) => t :: ofChars rest
termination_by cs.length
decreasing_by
  have h1 := length_next _hn
  have h2 := Numeral.length_dropWhile isBlank cs
  rw [_h] at h2
  omega

end Token

end AssetShell
