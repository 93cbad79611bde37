import AssetShell.Yaml.Block

/-!
# Documents of YAML

A text holds one document or none. Directives may stand before a document that starts with dashes;
points may stand before and behind a document. A text without a document holds no entries.
-/

namespace AssetShell

namespace Yaml

namespace Document

/-- Line ends of one or two characters become single ones. A null character ends the text. -/
def lineEnds : List Char → List Char
  | '\r' :: '\n' :: r => '\n' :: lineEnds r
  | c :: r => if c = '\x00' then [] else (if c = '\r' then '\n' else c) :: lineEnds r
  | [] => []

def marker (mark : Char) : Reading Bool := do
  let c ← get
  if c.rest.head? = some mark && isMarker c.column c.rest then
    Reading.char mark
    Reading.char mark
    Reading.char mark
    return true
  return false

def points : Reading (Option Unit) := do
  let _ ← Reading.next 0
  if ← marker '.' then
    Reading.lineEnd
    return some ()
  return none

def directive : Reading (Option Unit) := do
  let _ ← Reading.next 0
  if (← get).column = 0 && (← get).rest.head? = some '%' then
    Reading.scan fun cs => some (some (), cs.dropWhile (· ≠ '\n'))
  else return none

def root : Reading Datum := do
  let _ ← Reading.parts points
  let directives ← Reading.parts directive
  let levels := (← get).rest.length + 1
  if ← marker '-' then blockNode levels none ⟨0, false, false⟩
  else if !directives.isEmpty then failure
  else if (← get).rest.isEmpty then return .table []
  else blockNode levels none ⟨0, true, false⟩

def read : Reading Datum := do
  let v ← root
  let _ ← Reading.parts points
  if !(← get).rest.isEmpty then failure
  return v

end Document

def ofText? (s : String) : Option Datum :=
  (Document.read (.start (Document.lineEnds s.toList))).map Prod.fst

end Yaml

end AssetShell
