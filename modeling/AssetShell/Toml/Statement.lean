import AssetShell.Toml.Value

/-!
# Reading TOML

A TOML text consists of lines. A line may open a table by its header, add one more table under a
repeated header, or give a value to a key of the table opened last; blanks and a comment may follow.
A text is read as a whole or not at all.
-/

namespace AssetShell

namespace Toml

inductive Statement
  | table (path : List String)
  | element (path : List String)
  | assign (path : List String) (v : Toml)

/-- A line end, perhaps behind a comment, or the end of the text. -/
def lineEnd? : List Char → Option (List Char)
  | [] => some []
  | '\n' :: r => some r
  | '#' :: r =>
    match r.dropWhile Text.isPlain with
    | [] => some []
    | '\n' :: r => some r
    | _ => none
  | _ => none

namespace Statement

def isNone : List Char → Bool
  | [] => true
  | '\n' :: _ => true
  | '#' :: _ => true
  | _ => false

def read? : Scan Statement
  | '[' :: '[' :: r =>
    match key? r with
    | some (path, ']' :: ']' :: r) => some (.element path, r)
    | _ => none
  | '[' :: r =>
    match key? r with
    | some (path, ']' :: r) => some (.table path, r)
    | _ => none
  | cs => (pair? (value? maxLevels) cs).map fun ((path, v), r) => (.assign path v, r)

def all? (cs : List Char) : Option (List Statement) :=
  match cs with
  | [] => some []
  | c :: r =>
    let start := skipBlanks (c :: r)
    if isNone start then
      match lineEnd? start with
      | some rest => if _h : rest.length ≤ r.length then all? rest else none
      | none => none
    else
      match read? start with
      | none => none
      | some (s, rest) =>
        match lineEnd? (skipBlanks rest) with
        | some rest =>
          if _h : rest.length ≤ r.length then (all? rest).map (s :: ·) else none
        | none => none
termination_by cs.length

end Statement

/-- The tables so far and the path of the table opened last. -/
structure Growth where
  current : List String
  nodes : Nodes

def Growth.start : Growth := ⟨[], []⟩

def Growth.step (g : Growth) : Statement → Option Growth
  | .table path => (Node.openTable path g.nodes).map (⟨path, ·⟩)
  | .element path => (Node.openElement path g.nodes).map (⟨path, ·⟩)
  | .assign path v =>
    (Node.change false (fun _ nodes => Node.assign path v nodes) g.current .header g.nodes).map
      (⟨g.current, ·⟩)

/-- A line may end in a carriage return and a line feed. -/
def unifyLineEnds : List Char → List Char
  | '\r' :: '\n' :: r => '\n' :: unifyLineEnds r
  | c :: r => c :: unifyLineEnds r
  | [] => []

/-- A byte order mark may start a text. -/
def dropMark : List Char → List Char
  | '\ufeff' :: r => r
  | r => r

def ofText? (s : String) : Option (Named Toml) := do
  let statements ← Statement.all? (unifyLineEnds (dropMark s.toList))
  let g ← statements.foldlM Growth.step Growth.start
  return Node.entriesOf g.nodes

end Toml

end AssetShell
