import AssetShell.Number.Integer
import AssetShell.Settings.Datum

/-!
# Paths of settings

A path leads into settings step by step, by the names of tables and the places of lists. It is
written with a point before a name and with brackets around a place; the first step is a name. A key
that is not written like a path is one name.
-/

namespace AssetShell

namespace Settings

/-- A negative place counts from the end. -/
inductive Step
  | name (text : String)
  | place (index : Int)
  deriving DecidableEq, Repr

namespace Step

def isNameChar (c : Char) : Bool := c.isAlphanum || c = ' ' || c = '_' || c = '-'

def isBlank (c : Char) : Bool := c = ' ' || c = '\t'

def name? (cs : List Char) : Option (Step × List Char) :=
  let (text, r) := cs.span isNameChar
  if text.isEmpty then none else some (.name (String.ofList text), r)

/-- The digits of a place up to its closing bracket. -/
def digits? (negative : Bool) (cs : List Char) : Option (Step × List Char) :=
  let (digits, r) := cs.span Char.isDigit
  let index := IntegerText.value ⟨negative, digits⟩
  match r.dropWhile isBlank with
  | ']' :: r => if isDigits digits && Datum.isWord index then some (.place index, r) else none
  | _ => none

/-- A place, read behind its opening bracket. -/
def place? (cs : List Char) : Option (Step × List Char) :=
  match cs.dropWhile isBlank with
  | '-' :: r => digits? true r
  | r => digits? false r

/-- The step that a text starts with, behind the first step of a path. -/
def next? : List Char → Option (Step × List Char)
  | '.' :: r => name? r
  | '[' :: r => place? r
  | _ => none

def all? (cs : List Char) : Option (List Step) :=
  if cs.isEmpty then some [] else
  match next? cs with
  | none => none
  | some (step, r) => if _h : r.length < cs.length then (all? r).map (step :: ·) else none
termination_by cs.length

def ofKey? (key : String) : Option (List Step) := do
  let (first, r) ← name? key.toList
  let steps ← all? r
  return first :: steps

def ofKey (key : String) : List Step := (ofKey? key).getD [.name key]

def index? (index : Int) (length : Nat) : Option Nat :=
  let place := if index < 0 then index + length else index
  if 0 ≤ place then some place.toNat else none

end Step

end Settings

end AssetShell
