import AssetShell.Yaml.Group
import AssetShell.Yaml.Lines

/-!
# Blocks of YAML

Nodes by lines. The items of a list start with a dash, the entries of a table with their key, all in
one column, and what belongs to an item or an entry keeps to larger columns. The items of a list that
is the value of an entry may stand in the column of its key.
-/

namespace AssetShell

namespace Yaml

/-- Where a node stands: the least column that it keeps to, whether it may be a block on the line
where it starts, and whether it may be a list one column before the least one. -/
structure Spot where
  least : Nat
  compact : Bool
  dashes : Bool

namespace Block

/-- Keys have at most so many characters. -/
def maxKeyLength : Nat := 1024

def plainKey? (cs : List Char) : Option (List Char × List Char) :=
  if startsPlain false cs then some (plainLine false false cs) else none

/-- A key and the colon behind it, all on one line. -/
def key : Reading String := do
  let before ← get
  let v ← decorated fun tag => do
    Reading.blanks
    if (← get).rest.head? = some '*' then anchored
    else Reading.scan (scalarBy? plainKey? 0 tag)
  Reading.blanks
  let c ← get
  let passed := before.upTo c.rest
  if passed.contains '\n' || maxKeyLength < passed.length || !c.isAt ':' then failure
  Reading.char ':'
  match keyText? v with
  | some key => return key
  | none => failure

/-- Blanks behind a mark with a tabulator and no space among them. -/
def isTabbed (cs : List Char) : Bool :=
  (cs.takeWhile isBlank).contains '\t' && !(cs.takeWhile isBlank).contains ' '

/-- A tabulator alone does not divide a colon from a word. -/
def colonEnd : Reading Unit := do
  let r := (← get).rest
  match r.dropWhile isBlank with
  | c :: _ => if isTabbed r && (c.isAlphanum || c = '_' || c = '-') then failure
  | [] => return ()

/-- A tabulator does not divide two dashes. -/
def dashEnd : Reading Unit := do
  let r := (← get).rest
  match r.dropWhile isBlank with
  | '-' :: rest => if (r.takeWhile isBlank).contains '\t' && atSpace rest then failure
  | _ => return ()

def item (node : Spot → Reading Datum) (column : Nat) : Reading (Option Datum) := do
  let _ ← Reading.next (column + 1)
  let c ← get
  if c.isEnd || c.column < column || (c.column = column && !c.isAt '-') then return none
  if column < c.column then failure
  Reading.char '-'
  dashEnd
  return some (← node ⟨column + 1, true, false⟩)

/-- The value of an entry whose key is marked, if it has one. -/
def markedValue (node : Spot → Reading Datum) (column : Nat) : Reading Datum := do
  let _ ← Reading.next (column + 1)
  let c ← get
  if !c.isEnd && c.column = column && c.isAt ':' then
    Reading.char ':'
    node ⟨column + 1, true, true⟩
  else return .absent

/-- An entry of a table in a column. Behind a question mark the key is a node of its own. -/
def entry (node : Spot → Reading Datum) (column : Nat) : Reading (Option (String × Datum)) := do
  let _ ← Reading.next (column + 1)
  let c ← get
  if c.isEnd || c.column < column then return none
  if column < c.column then failure
  if c.isAt '?' then
    Reading.char '?'
    match keyText? (← node ⟨column + 1, true, true⟩) with
    | some key => return some (key, ← markedValue node column)
    | none => failure
  else
    let key ← key
    colonEnd
    return some (key, ← node ⟨column + 1, false, true⟩)

def list (node : Spot → Reading Datum) (column : Nat) : Reading Datum :=
  .list <$> Reading.parts (item node column)

def table (node : Spot → Reading Datum) (column : Nat) : Reading Datum := do
  match tableOf? (← Reading.parts (entry node column)) with
  | some v => return v
  | none => failure

/-- A node that is no block and stands alone at the end of its line. -/
def inline (least : Nat) (tag : Option Tag) : Reading Datum := do
  let c ← get
  match c.rest with
  | '|' :: r => return .text (String.ofList (← Reading.scan fun _ => lines? false least r))
  | '>' :: r => return .text (String.ofList (← Reading.scan fun _ => lines? true least r))
  | a :: _ =>
    let v ←
      if a = '*' then anchored
      else if a = '[' || a = '\x7b' then groupNode least c.rest.length
      else scalar false least tag
    Reading.lineEnd
    return v
  | [] => failure

end Block

def blockNode : Nat → Option Tag → Spot → Reading Datum
  | 0, _, _ => failure
  | levels + 1, tag, spot => do
    let first ← Reading.next spot.least
    let c ← get
    let node := blockNode levels none
    let starts := first || spot.compact
    let less := first && c.column < spot.least
    if c.isEnd then emptyNode tag
    else if less && spot.dashes && c.column + 1 = spot.least && c.isAt '-' then
      Block.list node c.column
    else if less then emptyNode tag
    else if starts && c.isAt '-' then Block.list node c.column
    else if starts && (c.isAt '?' || (← Reading.succeeds Block.key)) then Block.table node c.column
    else if c.rest.head? = some '&' || c.rest.head? = some '!' then
      decorated fun inner => blockNode levels (inner.or tag) { spot with compact := false }
    else Block.inline spot.least tag

end Yaml

end AssetShell
