import AssetShell.Yaml.Line

/-!
# Texts of lines

A text of lines follows its header line by line, each indented by the same number of blanks. In a
literal text each line end stays; in a folded one the line ends between lines that start with no
blank are folded. The header says what becomes of the line ends at the end.
-/

namespace AssetShell

namespace Yaml

/-- What becomes of line ends behind the last line: one is kept, or none, or all. -/
inductive Tail
  | clip
  | strip
  | keep
  deriving DecidableEq, Repr

namespace Tail

def ofChar? (c : Char) : Option Tail :=
  if c = '+' then some .keep else if c = '-' then some .strip else none

end Tail

/-- A header may give the indentation, counted from the column of the lines around. -/
structure Header where
  folds : Bool
  tail : Tail
  indent : Option Nat
  deriving DecidableEq, Repr

namespace Header

def digit? (c : Char) : Option Nat :=
  if '1' ≤ c ∧ c ≤ '9' then some (c.toNat - '0'.toNat) else none

/-- The rest of a header, which has a digit and a sign in any order. -/
def read? (folds : Bool) : List Char → Option (Header × List Char)
  | a :: b :: r =>
    match Tail.ofChar? a, digit? b, digit? a, Tail.ofChar? b with
    | some tail, some n, _, _ => some (⟨folds, tail, some n⟩, r)
    | some tail, none, _, _ => some (⟨folds, tail, none⟩, b :: r)
    | none, _, some n, some tail => some (⟨folds, tail, some n⟩, r)
    | none, _, some n, none => some (⟨folds, .clip, some n⟩, b :: r)
    | none, _, none, _ => some (⟨folds, .clip, none⟩, a :: b :: r)
  | [a] =>
    match Tail.ofChar? a, digit? a with
    | some tail, _ => some (⟨folds, tail, none⟩, [])
    | none, some n => some (⟨folds, .clip, some n⟩, [])
    | none, none => some (⟨folds, .clip, none⟩, [a])
  | [] => some (⟨folds, .clip, none⟩, [])

end Header

/-- Where a line starts behind empty ones: their number, the column, and the text from there on. -/
structure LineStart where
  empties : Nat
  column : Nat
  rest : List Char

namespace LineStart

/-- Goes over empty lines and over the indentation of the next line. -/
def next (indent column empties : Nat) : List Char → LineStart
  | [] => ⟨empties, column, []⟩
  | c :: r =>
    if c = ' ' && column < indent then next indent (column + 1) empties r
    else if c = '\n' then next indent 0 (empties + 1) r
    else ⟨empties, column, c :: r⟩

/-- The text from the line's own first column on. -/
def line (s : LineStart) : List Char := List.replicate s.column ' ' ++ s.rest

end LineStart

/-- The largest column in which a line ends or its first word starts, up to the first line with a
word. -/
def widest (column most : Nat) : List Char → Nat
  | [] => max most column
  | c :: r =>
    if c = ' ' then widest (column + 1) most r
    else if c = '\n' then widest 0 (max most column) r
    else max most column

def newlines (n : Nat) : List Char := List.replicate n '\n'

/-- What stands between the last line and the next one, `empties` empty ones apart. -/
def between (folds : Bool) (last next : List Char) (empties : Nat) : List Char :=
  if folds && !atBlank last && !atBlank next then folded (empties + 1) else newlines (empties + 1)

/-- The end of the text behind its last line. A text that ends inside of an indentation has one line
end more. -/
def ending (h : Header) (indent : Nat) (lineEnds : Nat) (s : LineStart) : List Char :=
  let missing := if s.rest.isEmpty && max indent 1 ≤ s.column then 1 else 0
  match h.tail with
  | .strip => []
  | .clip => newlines (lineEnds + missing)
  | .keep => newlines (lineEnds + missing + s.empties)

/-- The lines behind the last one, and the text from the first line on that is none of them. -/
def moreLines (h : Header) (indent : Nat) (last : List Char) (cs : List Char) :
    List Char × List Char :=
  let s := LineStart.next indent 0 0 cs
  if s.rest.isEmpty || s.column ≠ indent || (indent = 0 && isMarker 0 s.rest) then
    (ending h indent 1 s, s.line)
  else
    let (line, r) := s.rest.span (· ≠ '\n')
    let start := between h.folds last line s.empties ++ line
    match r with
    | [] => (start ++ ending h indent 0 ⟨0, s.column + line.length, []⟩, [])
    | _ :: r =>
      if _h : r.length < cs.length then
        let (more, rest) := moreLines h indent line r
        (start ++ more, rest)
      else (start, r)
termination_by cs.length

def lines (h : Header) (indent : Nat) (s : LineStart) : List Char × List Char :=
  if s.column ≠ indent || (indent = 0 && isMarker 0 s.rest) then
    (ending h indent 0 s, s.line)
  else
    let (line, r) := s.rest.span (· ≠ '\n')
    let start := newlines s.empties ++ line
    match r with
    | [] => (start ++ ending h indent 0 ⟨0, s.column + line.length, []⟩, [])
    | _ :: r =>
      let (more, rest) := moreLines h indent line r
      (start ++ more, rest)

def emptyLines (tail : Tail) (empties : Nat) : List Char :=
  match tail with
  | .strip => []
  | .clip => ['\n']
  | .keep => newlines (max empties 1)

/-- A text of lines, read behind the mark that starts its header. Where the header gives none, the
first line gives the indentation, at least the least column. -/
def lines? (folds : Bool) (least : Nat) (cs : List Char) : Option (List Char × List Char) := do
  let (h, r) ← Header.read? folds cs
  let ((), r) ← lineEnd? r
  match r with
  | [] => return ([], [])
  | _ :: r =>
    let indent := (h.indent.map (least - 1 + ·)).getD (max (widest 0 0 r) least)
    let s := LineStart.next indent 0 0 r
    if r.head? = some '\t' || (!s.rest.isEmpty && s.column < indent && least ≤ s.column) then none
    else if s.rest.isEmpty then return (emptyLines h.tail s.empties, [])
    else return lines h indent s

end Yaml

end AssetShell
