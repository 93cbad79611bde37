import AssetShell.Json.Token
import AssetShell.Settings.Datum
import AssetShell.Text.Blank

/-!
# Settings in INI

An INI text consists of comments, headers of sections, and keys with their values. A comment starts
its line. A key reaches up to an equals sign or a colon and may run over several lines; a value
reaches to the end of its line, except where it is quoted. Escapes are known everywhere. All values
are texts, without white space at their ends.
-/

namespace AssetShell

namespace Ini

def escape? (c : Char) : Option Char :=
  if c = '0' then some '\x00'
  else if c = 'a' then some '\x07'
  else if c = 'b' then some '\x08'
  else if c = 't' then some '\t'
  else if c = 'r' then some '\r'
  else if c = 'n' then some '\n'
  else none

def codePoint? (a b c d : Char) : Option Char :=
  (Token.unit? a b c d).bind fun n => if n.isValidChar then some (Char.ofNat n) else none

/-- The characters before the first one that stops, and the text from there on. `isOpen` says that the
end of the text may stop them too. A backslash before a line end joins the lines, and before a
character that is no escape it vanishes. -/
def scan? (stops : Char → Bool) (isOpen : Bool) : List Char → Option (List Char × List Char)
  | [] => if isOpen then some ([], []) else none
  | '\\' :: 'x' :: a :: b :: c :: d :: r =>
    match codePoint? a b c d, scan? stops isOpen r with
    | some c, some (cs, rest) => some (c :: cs, rest)
    | _, _ => none
  | ['\\'] => none
  | '\\' :: '\n' :: r => scan? stops isOpen r
  | '\\' :: 'x' :: _ => none
  | '\\' :: c :: r => (scan? stops isOpen r).map fun (cs, rest) => ((escape? c).getD c :: cs, rest)
  | c :: r =>
    if stops c then some ([], c :: r)
    else (scan? stops isOpen r).map fun (cs, rest) => (c :: cs, rest)

def isLineEnd (c : Char) : Bool := c = '\n' || c = '\r'

def line? (cs : List Char) : Option (List Char × List Char) := scan? isLineEnd true cs

/-- A quoted part, read behind its first mark, and the rest of its line. -/
def quoted? (mark : Char) (cs : List Char) : Option (List Char × List Char) := do
  let (inner, r) ← scan? (· = mark) false cs
  let (outer, r) ← line? r.tail
  return (inner ++ outer, r)

/-- A value, read behind the sign that divides it from its key. -/
def value? (cs : List Char) : Option (List Char × List Char) :=
  match cs.dropWhile fun c => isWhiteSpace c && !isLineEnd c with
  | '"' :: r => quoted? '"' r
  | '\'' :: r => quoted? '\'' r
  | r => line? r

def isDivider (c : Char) : Bool := c = '=' || c = ':'

def trimmedText (cs : List Char) : String := String.ofList (trimmed cs)

inductive Item
  | comment
  | header (name : String)
  | entry (key value : String)
  deriving DecidableEq, Repr

/-- The item that a text starts with; `fresh` says that it starts its line. -/
def item? (fresh : Bool) : List Char → Option (Item × List Char)
  | '[' :: r => do
    let (name, r) ← scan? (· = ']') false r
    return (.header (trimmedText name), r.tail)
  | c :: r =>
    if c = ';' || c = '#' then
      if fresh then some (.comment, r.dropWhile (· ≠ '\n')) else none
    else do
      let (key, r) ← scan? isDivider false (c :: r)
      let (value, r) ← value? r.tail
      if (trimmedText key).isEmpty then none
      else return (.entry (trimmedText key) (trimmedText value), r)
  | [] => none

/-- Skips white space. The flag says whether the text then starts a line. -/
def skip (fresh : Bool) : List Char → Bool × List Char
  | [] => (fresh, [])
  | c :: r => if isWhiteSpace c then skip (c = '\n') r else (fresh, c :: r)

def items? (fresh : Bool) (cs : List Char) : Option (List Item) :=
  let (fresh, start) := skip fresh cs
  if start.isEmpty then some [] else
  match item? fresh start with
  | none => none
  | some (item, r) => if _h : r.length < cs.length then (items? false r).map (item :: ·) else none
termination_by cs.length

/-- The entries of each section, last section first. The entries before any header have no name. -/
abbrev Sections := List (Option String × Named Datum)

def addItem (sections : Sections) : Item → Sections
  | .comment => sections
  | .header name => (some name, []) :: sections
  | .entry key value =>
    match sections with
    | [] => [(none, [(key, .text value)])]
    | (name, entries) :: r => (name, entries.put key (.text value)) :: r

/-- Of sections with one name the last counts. -/
def addSection (entries : Named Datum) : Option String × Named Datum → Named Datum
  | (none, own) => own.foldl (fun entries (key, v) => entries.put key v) entries
  | (some name, own) => entries.put name (.table own)

def ofText? (s : String) : Option (Named Datum) :=
  (items? true s.toList).map fun items => (items.foldl addItem []).reverse.foldl addSection []

end Ini

end AssetShell
