import AssetShell.Settings.Datum
import AssetShell.Yaml.Scalar
import AssetShell.Yaml.Text

/-!
# Cursors

A text is read at a cursor, which knows its column, the text from there on, and the values that have
been given a name so far. A reading moves the cursor or fails.
-/

namespace AssetShell

namespace Yaml

structure Cursor where
  column : Nat
  rest : List Char
  anchors : Named Datum

namespace Cursor

def start (cs : List Char) : Cursor := ⟨0, cs, []⟩

def columnAfter (column : Nat) (c : Char) : Nat := if c = '\n' then 0 else column + 1

def upTo (c : Cursor) (r : List Char) : List Char := c.rest.take (c.rest.length - r.length)

def moved (c : Cursor) (r : List Char) : Cursor :=
  { c with column := (c.upTo r).foldl columnAfter c.column, rest := r }

def isEnd (c : Cursor) : Bool := c.rest.isEmpty || isMarker c.column c.rest

def isAt (mark : Char) (c : Cursor) : Bool :=
  match c.rest with
  | a :: r => a = mark && atSpace r
  | [] => false

end Cursor

abbrev Reading := StateT Cursor Option

namespace Reading

variable {α : Type}

def scan (scan? : Scan α) : Reading α := fun c =>
  (scan? c.rest).map fun (a, r) => (a, c.moved r)

/-- Goes to the next word; the result says whether it starts its line. -/
def next (least : Nat) : Reading Bool := fun c =>
  (Word.after? least c.column c.rest).map fun w =>
    (w.first, { c with column := w.column, rest := w.rest })

def blanks : Reading Unit := scan fun cs => some ((), cs.dropWhile isBlank)

def char (mark : Char) : Reading Unit := scan fun
  | c :: r => if c = mark then some ((), r) else none
  | [] => none

def lineEnd : Reading Unit := scan lineEnd?

/-- Whether a reading would succeed; the cursor stays. -/
def succeeds (reading : Reading α) : Reading Bool := fun c => some ((reading c).isSome, c)

/-- Reads parts until there is none, but at most so many. -/
def partsUpTo (part : Reading (Option α)) : Nat → Reading (List α)
  | 0 => failure
  | n + 1 => do
    match ← part with
    | none => return []
    | some a => return a :: (← partsUpTo part n)

/-- Reads parts until there is none. Each has a character. -/
def parts (part : Reading (Option α)) : Reading (List α) := do
  partsUpTo part ((← get).rest.length + 1)

end Reading

/-! ## Names and tags -/

def define (name : String) (v : Datum) : Reading Unit :=
  modify fun c => { c with anchors := c.anchors.put name v }

def wordChars (cs : List Char) : List Char := cs.takeWhile fun c => !(isSpace c || isGroupMark c)

def anchorName? (cs : List Char) : Option (String × List Char) :=
  let name := wordChars cs
  if name.isEmpty then none else some (String.ofList name, cs.drop name.length)

def anchored : Reading Datum := do
  Reading.char '*'
  let name ← Reading.scan anchorName?
  match (← get).anchors.get? name with
  | some v => return v
  | none => failure

/-- The tag of a word behind its exclamation mark. Two marks start a tag of YAML itself, and other
marks inside of a tag need a declaration. -/
def tagOf? : List Char → Option Tag
  | '!' :: r =>
    if r.isEmpty || r.contains '!' then none
    else if r = "bool".toList then some .bool
    else if r = "int".toList then some .int
    else if r = "float".toList then some .float
    else if r = "null".toList then some .null
    else some .other
  | '<' :: _ => some .other
  | r => if r.contains '!' then none else some .other

def tag? (cs : List Char) : Option (Tag × List Char) :=
  let word := wordChars cs
  (tagOf? word).map fun tag => (tag, cs.drop word.length)

structure Properties where
  anchor : Option String := none
  tag : Option Tag := none

/-- One more property behind blanks, if there is one. None is given twice. -/
def property (p : Properties) : Reading Properties := do
  match (← get).rest.dropWhile isBlank, p.anchor, p.tag with
  | '&' :: _, none, _ =>
    Reading.blanks
    Reading.char '&'
    return { p with anchor := some (← Reading.scan anchorName?) }
  | '!' :: _, _, none =>
    Reading.blanks
    Reading.char '!'
    return { p with tag := some (← Reading.scan tag?) }
  | _, _, _ => return p

def properties : Reading Properties := do property (← property {})

/-- A node behind its properties. Until it is read its name stands for nothing. -/
def decorated (node : Option Tag → Reading Datum) : Reading Datum := do
  let p ← properties
  match p.anchor with
  | none => node p.tag
  | some name =>
    define name .absent
    let v ← node p.tag
    define name v
    return v

/-! ## Scalars -/

def emptyNode (tag : Option Tag) : Reading Datum :=
  match scalar? tag "" with
  | some v => return v
  | none => failure

/-- The scalar of a text between marks, or else of one without quotes. -/
def scalarBy? (plain? : Scan (List Char)) (least : Nat) (tag : Option Tag) (cs : List Char) :
    Option (Datum × List Char) :=
  if cs.head? = some '"' || cs.head? = some '\'' then
    (quoted? least cs).map fun (s, r) => (.text (String.ofList s), r)
  else do
    let (s, r) ← plain? cs
    let v ← scalar? tag (String.ofList s)
    return (v, r)

def scalar (inGroup : Bool) (least : Nat) (tag : Option Tag) : Reading Datum :=
  Reading.scan (scalarBy? (plain? inGroup least) least tag)

/-! ## Tables -/

/-- The name that a node gives to an entry: a text, or an integer. -/
def keyText? : Datum → Option String
  | .text s => some s
  | .integer v => some (toString v)
  | _ => none

/-- The table of entries among which no name is given twice. -/
def tableOf? (entries : List (String × Datum)) : Option Datum :=
  if (entries.map Prod.fst).Nodup then some (.table entries) else none

end Yaml

end AssetShell
