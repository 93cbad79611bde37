import AssetShell.Number.Written
import AssetShell.Settings.Merge
import AssetShell.Text.Split

/-!
# Settings from the environment

A variable of the environment is a setting if its name starts with `AASV__`, in any case. The rest of
the name is the path of the setting, with two underscores for each point.
-/

namespace AssetShell

structure Variable where
  name : String
  value : String
  deriving DecidableEq, Repr

namespace Variable

/-- Points in place of pairs of underscores, taken from the left. -/
def withPoints : List Char → List Char
  | '_' :: '_' :: r => '.' :: withPoints r
  | c :: r => c :: withPoints r
  | [] => []

def key? (v : Variable) : Option String :=
  match v.name.toList.map Settings.smallChar with
  | 'a' :: 'a' :: 's' :: 'v' :: '_' :: '_' :: r => some (String.ofList (withPoints r))
  | _ => none

def listKeys : List String := ["check.extensions", "check.ignore_paths"]

def boolean? (value : String) : Option Bool :=
  if sameLetters value "true" then some true
  else if sameLetters value "false" then some false
  else none

def integer? (value : String) : Option Int := do
  let t ← IntegerText.read? value.toList
  if Datum.isWord t.value then some t.value else none

def float? (value : String) : Option Binary64 :=
  (FloatText.read? value.toList).map FloatText.toBinary64

/-- A value is a boolean, an integer or a number if it reads as one; else it is a list for the
settings that are lists, and a text for the others. -/
def setting (key value : String) : Datum :=
  match boolean? value, integer? value, float? value with
  | some b, _, _ => .boolean b
  | none, some v, _ => .integer v
  | none, none, some v => .float v
  | none, none, none =>
    if listKeys.contains key then .list ((splitText ',' value).map .text) else .text value

def entry? (v : Variable) : Option (String × Datum) :=
  v.key?.map fun key => (key, setting key v.value)

def layer (environment : List Variable) : Named Datum := environment.filterMap entry?

end Variable

end AssetShell
