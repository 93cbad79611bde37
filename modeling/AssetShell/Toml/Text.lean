import AssetShell.Json.Token

/-!
# Strings of TOML

A basic string stands between quotes and knows escapes; a literal string stands between apostrophes
and knows none. Either may run over several lines between tripled marks; then up to two marks may
stand before the closing ones, and a backslash at the end of a line joins the lines.
-/

namespace AssetShell

namespace Toml.Text

/-- Characters that stand for themselves in every string: all but the controls, of which the
tabulator is allowed. -/
def isPlain (c : Char) : Bool := c = '\t' || (32 ≤ c.toNat && c.toNat ≠ 127)

def isBlank (c : Char) : Bool := c = ' ' || c = '\t'

def scalar? (n : Nat) : Option Char := if n.isValidChar then some (Char.ofNat n) else none

def named? (c : Char) : Option Char :=
  if c = '"' ∨ c = '\\' then some c
  else if c = 'b' then some '\x08'
  else if c = 'f' then some '\x0c'
  else if c = 'n' then some '\n'
  else if c = 'r' then some '\r'
  else if c = 't' then some '\t'
  else none

def escape? : List Char → Option (Char × List Char)
  | 'u' :: a :: b :: c :: d :: r => do
    let c ← scalar? (← Token.unit? a b c d)
    return (c, r)
  | 'U' :: a :: b :: c :: d :: e :: f :: g :: h :: r => do
    let high ← Token.unit? a b c d
    let low ← Token.unit? e f g h
    let c ← scalar? (high * 65536 + low)
    return (c, r)
  | c :: r => (named? c).map (·, r)
  | [] => none

theorem length_escape {cs r : List Char} {c : Char} (h : escape? cs = some (c, r)) :
    r.length < cs.length := by
  unfold escape? at h
  split at h
  · simp only [Option.bind_eq_bind, Option.bind_eq_some_iff, Option.pure_def, Option.some.injEq,
      Prod.mk.injEq] at h
    obtain ⟨_, _, _, _, _, rfl⟩ := h
    simp only [List.length_cons]
    omega
  · simp only [Option.bind_eq_bind, Option.bind_eq_some_iff, Option.pure_def, Option.some.injEq,
      Prod.mk.injEq] at h
    obtain ⟨_, _, _, _, _, _, _, rfl⟩ := h
    simp only [List.length_cons]
    omega
  · simp only [Option.map_eq_some_iff, Prod.mk.injEq] at h
    obtain ⟨_, _, _, rfl⟩ := h
    simp
  · cases h

/-- A basic string, read behind its first quote: its characters, and what follows the last quote. -/
def basic? : List Char → Option (List Char × List Char)
  | [] => none
  | '"' :: r => some ([], r)
  | '\\' :: r =>
    match _h : escape? r with
    | some (c, rest) => (basic? rest).map fun (cs, rest) => (c :: cs, rest)
    | none => none
  | c :: r => if isPlain c then (basic? r).map fun (cs, rest) => (c :: cs, rest) else none
termination_by cs => cs.length
decreasing_by
  · have := length_escape _h
    simp only [List.length_cons]
    omega
  · simp

def literal? : List Char → Option (List Char × List Char)
  | [] => none
  | '\'' :: r => some ([], r)
  | c :: r => if isPlain c then (literal? r).map fun (cs, rest) => (c :: cs, rest) else none

/-- What follows three closing marks: up to two more of them belong to the string. -/
def closing (mark : Char) : List Char → List Char × List Char
  | a :: b :: r =>
    if a = mark then if b = mark then ([a, b], r) else ([a], b :: r) else ([], a :: b :: r)
  | [a] => if a = mark then ([a], []) else ([], [a])
  | [] => ([], [])

/-- A backslash that only blanks divide from the end of its line takes away all blanks and line ends
behind it. -/
def joined? (cs : List Char) : Option (List Char) :=
  match cs.dropWhile isBlank with
  | '\n' :: r => some (r.dropWhile fun c => isBlank c || c = '\n')
  | _ => none

theorem length_joined {cs r : List Char} (h : joined? cs = some r) : r.length < cs.length := by
  unfold joined? at h
  split at h
  · rename_i s hs
    have h1 := Numeral.length_dropWhile isBlank cs
    have h2 := Numeral.length_dropWhile (fun c => isBlank c || c = '\n') s
    rw [hs, List.length_cons] at h1
    cases h
    omega
  · cases h

def basicLines? : List Char → Option (List Char × List Char)
  | [] => none
  | '"' :: '"' :: '"' :: r => some (closing '"' r)
  | '\\' :: r =>
    match _h : escape? r with
    | some (c, rest) => (basicLines? rest).map fun (cs, rest) => (c :: cs, rest)
    | none =>
      match _j : joined? r with
      | some rest => basicLines? rest
      | none => none
  | c :: r =>
    if isPlain c || c = '\n' then (basicLines? r).map fun (cs, rest) => (c :: cs, rest) else none
termination_by cs => cs.length
decreasing_by
  · have := length_escape _h
    simp only [List.length_cons]
    omega
  · have := length_joined _j
    simp only [List.length_cons]
    omega
  · simp

def literalLines? : List Char → Option (List Char × List Char)
  | [] => none
  | '\'' :: '\'' :: '\'' :: r => some (closing '\'' r)
  | c :: r =>
    if isPlain c || c = '\n' then (literalLines? r).map fun (cs, rest) => (c :: cs, rest) else none

/-- A line end right behind the opening marks is not part of the string. -/
def firstLine : List Char → List Char
  | '\n' :: r => r
  | r => r

def read? : List Char → Option (List Char × List Char)
  | '"' :: '"' :: '"' :: r => basicLines? (firstLine r)
  | '"' :: r => basic? r
  | '\'' :: '\'' :: '\'' :: r => literalLines? (firstLine r)
  | '\'' :: r => literal? r
  | _ => none

end Toml.Text

end AssetShell
