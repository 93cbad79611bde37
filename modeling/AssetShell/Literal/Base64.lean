/-!
# Base64

Bytes as text of four symbols for three bytes, with padding at the end. Decoding is strict: it
refuses missing or misplaced padding and unused bits that are set, so each byte string has exactly
one encoding. A refusal names the first defect with its byte offset.
-/

namespace AssetShell

namespace Base64

inductive Fault
  | invalidSymbol (byte : UInt8) (offset : Nat)
  | invalidLength (length : Nat)
  | invalidLastSymbol (byte : UInt8) (offset : Nat)
  | invalidPadding
  deriving DecidableEq, Repr

def Fault.message : Fault → String
  | .invalidSymbol byte offset => s!"Invalid symbol {byte.toNat}, offset {offset}."
  | .invalidLength length => s!"Invalid input length: {length}"
  | .invalidLastSymbol byte offset => s!"Invalid last symbol {byte.toNat}, offset {offset}."
  | .invalidPadding => "Invalid padding"

def padding : UInt8 := 61

def sextet? (symbol : UInt8) : Option Nat :=
  let n := symbol.toNat
  if 65 ≤ n ∧ n ≤ 90 then some (n - 65)
  else if 97 ≤ n ∧ n ≤ 122 then some (n - 71)
  else if 48 ≤ n ∧ n ≤ 57 then some (n + 4)
  else if n = 43 then some 62
  else if n = 47 then some 63
  else none

def symbol (sextet : Nat) : UInt8 :=
  if sextet < 26 then .ofNat (sextet + 65)
  else if sextet < 52 then .ofNat (sextet + 71)
  else if sextet < 62 then .ofNat (sextet - 4)
  else if sextet = 62 then 43
  else 47

def encode : List UInt8 → List UInt8
  | [] => []
  | [a] =>
    let n := a.toNat * 16
    [symbol (n / 64), symbol (n % 64), padding, padding]
  | [a, b] =>
    let n := (a.toNat * 256 + b.toNat) * 4
    [symbol (n / 4096), symbol (n / 64 % 64), symbol (n % 64), padding]
  | a :: b :: c :: r =>
    let n := (a.toNat * 256 + b.toNat) * 256 + c.toNat
    symbol (n / 262144) :: symbol (n / 4096 % 64) :: symbol (n / 64 % 64) :: symbol (n % 64)
      :: encode r

def sextet (offset : Nat) (byte : UInt8) : Except Fault Nat :=
  match sextet? byte with
  | some n => .ok n
  | none => .error (.invalidSymbol byte offset)

def threeBytes (n : Nat) : List UInt8 := [.ofNat (n / 65536), .ofNat (n / 256 % 256), .ofNat (n % 256)]

/-- The sextets before the padding, the last symbol among them, and the count of padding bytes.
Padding may stand in the last two of four places, and nothing but padding follows it. -/
structure Tail where
  sextets : List Nat := []
  last : UInt8 := padding
  padded : Nat := 0
  firstPadding : Nat := 0

def Tail.push (start place : Nat) (t : Tail) (byte : UInt8) : Except Fault Tail :=
  if byte = padding then
    if place < 2 then .error (.invalidSymbol byte (start + place))
    else .ok { t with
      padded := t.padded + 1
      firstPadding := if t.padded = 0 then place else t.firstPadding }
  else if t.padded ≠ 0 then .error (.invalidSymbol padding (start + t.firstPadding))
  else do
    let n ← sextet (start + place) byte
    return { t with sextets := t.sextets ++ [n], last := byte }

def Tail.read (start : Nat) : Nat → Tail → List UInt8 → Except Fault Tail
  | _, t, [] => .ok t
  | place, t, byte :: r => do read start (place + 1) (← t.push start place byte) r

def Tail.bytes (start : Nat) (t : Tail) : Except Fault (List UInt8) :=
  if t.sextets.length < 2 then .error (.invalidLength (start + t.sextets.length))
  else if t.sextets.length + t.padded ≠ 4 then .error .invalidPadding
  else
    let strayBits := .error (.invalidLastSymbol t.last (start + t.sextets.length - 1))
    match t.sextets with
    | [a, b] =>
      let n := a * 64 + b
      if n % 16 ≠ 0 then strayBits else .ok [.ofNat (n / 16)]
    | [a, b, c] =>
      let n := (a * 64 + b) * 64 + c
      if n % 4 ≠ 0 then strayBits else .ok [.ofNat (n / 1024), .ofNat (n / 4 % 256)]
    | [a, b, c, d] => .ok (threeBytes (((a * 64 + b) * 64 + c) * 64 + d))
    | _ => .ok []

/-- Groups of four that more bytes follow hold no padding. -/
def decodeFrom (start : Nat) : List UInt8 → Except Fault (List UInt8)
  | [] => .ok []
  | a :: b :: c :: d :: e :: r => do
    let w ← sextet start a
    let x ← sextet (start + 1) b
    let y ← sextet (start + 2) c
    let z ← sextet (start + 3) d
    return threeBytes (((w * 64 + x) * 64 + y) * 64 + z) ++ (← decodeFrom (start + 4) (e :: r))
  | tail => do (← Tail.read start 0 {} tail).bytes start

/-- A last byte that stands alone behind full groups and is no symbol is found before all else. -/
def strayLast? (bytes : List UInt8) : Option Fault :=
  match bytes.getLast? with
  | none => none
  | some byte =>
    if bytes.length % 4 = 1 ∧ byte ≠ padding ∧ sextet? byte = none then
      some (.invalidSymbol byte (bytes.length - 1))
    else none

def decode (bytes : List UInt8) : Except Fault (List UInt8) :=
  match strayLast? bytes with
  | some fault => .error fault
  | none => decodeFrom 0 bytes

end Base64

def utf8Bytes (s : String) : List UInt8 := s.toList.flatMap String.utf8EncodeChar

end AssetShell
