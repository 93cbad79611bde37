import AssetShell.Text.Scan

/-!
# Lines of YAML

The column of a line's first word says where the line belongs. Values of several lines keep to a
least column, and a tabulator does not count before it. Line ends are single characters here.
-/

namespace AssetShell

namespace Yaml

def isBlank (c : Char) : Bool := c = ' ' || c = '\t'

def isSpace (c : Char) : Bool := isBlank c || c = '\n'

def atSpace : List Char → Bool
  | [] => true
  | c :: _ => isSpace c

def atBlank (cs : List Char) : Bool := (cs.head?.map isBlank).getD false

def isEmptyLine (cs : List Char) : Bool :=
  match cs.dropWhile isBlank with
  | [] => true
  | c :: _ => c = '\n' || c = '#'

/-- A marker between documents starts its line. -/
def isMarker (column : Nat) : List Char → Bool
  | '-' :: '-' :: '-' :: r => column = 0 && atSpace r
  | '.' :: '.' :: '.' :: r => column = 0 && atSpace r
  | _ => false

/-- The next word of a text: whether it starts its line, its column, and the text from it on. -/
structure Word where
  first : Bool
  column : Nat
  rest : List Char

namespace Word

/-- Goes on to the next word behind blanks, comments and line ends. A comment stands at the start of
a line or behind a blank. -/
def next? (least : Nat) (first spaced : Bool) (column : Nat) : List Char → Option Word
  | [] => some ⟨first, column, []⟩
  | c :: r =>
    if c = '\n' then next? least true true 0 r
    else if c = ' ' then next? least first true (column + 1) r
    else if c = '\t' then
      if first && column < least && !isEmptyLine r then none
      else next? least first true (column + 1) r
    else if c = '#' && spaced then next? least first true column (r.dropWhile (· ≠ '\n'))
    else some ⟨first, column, c :: r⟩
termination_by cs => cs.length
decreasing_by
  · simp
  · simp
  · simp
  · have := (List.dropWhile_sublist (· ≠ '\n') (l := r)).length_le
    simp only [List.length_cons]
    omega

/-- The word at a place. What stands in the first column starts its line. -/
def after? (least column : Nat) (cs : List Char) : Option Word :=
  next? least (column = 0) (column = 0) column cs

end Word

/-- Line ends with the blanks behind them: their number, the column behind them, and the text from
there on. -/
def lineEnds? (least column count : Nat) : List Char → Option (Nat × Nat × List Char)
  | [] => some (count, column, [])
  | c :: r =>
    if c = '\n' then lineEnds? least 0 (count + 1) r
    else if c = ' ' then lineEnds? least (column + 1) count r
    else if c = '\t' then
      if column < least && !isEmptyLine r then none else lineEnds? least (column + 1) count r
    else some (count, column, c :: r)

/-- What line ends inside of a value stand for: a single one for a blank, several for all but one of
them. -/
def folded (count : Nat) : List Char :=
  if count = 1 then [' '] else List.replicate (count - 1) '\n'

/-- Only blanks and a comment may follow the last word of a line. -/
def lineEnd? (cs : List Char) : Option (Unit × List Char) :=
  match cs.dropWhile isBlank with
  | [] => some ((), [])
  | '\n' :: r => some ((), '\n' :: r)
  | '#' :: r =>
    if atBlank cs then some ((), r.dropWhile (· ≠ '\n')) else none
  | _ => none

end Yaml

end AssetShell
