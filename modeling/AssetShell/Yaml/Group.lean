import AssetShell.Yaml.Cursor

/-!
# Groups of YAML

Nodes between brackets. A list of nodes stands between square ones, a table between braces; lines
mean nothing there but keep to a least column. A node of a list may be a table of one entry without
braces.
-/

namespace AssetShell

namespace Yaml

namespace Group

/-- Goes to the next word, which keeps to the least column. -/
def next (least : Nat) : Reading Unit := do
  let first ← Reading.next least
  let c ← get
  if first && c.column < least && !c.rest.isEmpty then failure

def isAhead (mark : Char) : Reading Bool := do return (← get).rest.head? = some mark

/-- A part and the comma behind it, unless the group is closed here. -/
def part {α : Type} (close : Char) (least : Nat) (read : Reading α) : Reading (Option α) := do
  next least
  if ← isAhead close then
    Reading.char close
    return none
  if ← isAhead ',' then failure
  let a ← read
  next least
  if !(← isAhead close) then Reading.char ','
  return some a

/-- What ends with a mark has its colon right behind it. -/
def isMarked (cs : List Char) : Bool :=
  (cs.head?.map "\"'[\x7b".toList.contains).getD false

def colon (least : Nat) (marked : Bool) : Reading Bool := do
  if marked && (← isAhead ':') then
    Reading.char ':'
    return true
  next least
  match (← get).rest with
  | ':' :: r =>
    if endsKey true r then
      Reading.char ':'
      return true
    return false
  | _ => return false

/-- A node, or nothing before a mark that ends one. -/
def orEmpty (least : Nat) (tag : Option Tag) (node : Reading Datum) : Reading Datum := do
  next least
  match (← get).rest with
  | c :: _ => if c = ',' || c = ']' || c = '\x7d' then emptyNode tag else node
  | [] => failure

def item (least : Nat) (node : Reading Datum) : Reading Datum := do
  let before ← get
  let v ← node
  if ← colon least (isMarked before.rest) then
    let after ← get
    if (before.upTo after.rest).contains '\n' then failure
    match keyText? v with
    | none => failure
    | some key => return .table [(key, ← orEmpty least none node)]
  return v

/-- An entry of a table. A question mark may stand before its key. -/
def entry (least : Nat) (node : Reading Datum) : Reading (String × Datum) := do
  if (← get).isAt '?' then
    Reading.char '?'
    next least
  let before ← get
  match keyText? (← node) with
  | none => failure
  | some key =>
    if ← colon least (isMarked before.rest) then return (key, ← orEmpty least none node)
    return (key, .absent)

end Group

def groupNode (least : Nat) : Nat → Reading Datum
  | 0 => failure
  | levels + 1 => decorated fun tag => Group.orEmpty least tag do
    match (← get).rest with
    | '*' :: _ => anchored
    | '[' :: _ =>
      Reading.char '['
      return .list (← Reading.parts (Group.part ']' least (Group.item least (groupNode least levels))))
    | '\x7b' :: _ =>
      Reading.char '\x7b'
      let entries ←
        Reading.parts (Group.part '\x7d' least (Group.entry least (groupNode least levels)))
      match tableOf? entries with
      | some v => return v
      | none => failure
    | _ => scalar true least tag

end Yaml

end AssetShell
