import AssetShell.Named
import AssetShell.Number.Binary64
import AssetShell.Number.Integer

/-!
# Data of settings

Whatever its format, a settings file holds texts, numbers, booleans, lists and tables. A datum may
also be absent, where a place was left without a value.
-/

namespace AssetShell

inductive Datum
  | absent
  | boolean (value : Bool)
  | integer (value : Int)
  | float (value : Binary64)
  | text (value : String)
  | list (items : List Datum)
  | table (entries : List (String × Datum))
  deriving Repr

namespace Datum

/-- The entries of a table; nothing else has any. -/
def entries : Datum → Named Datum
  | .table entries => entries
  | _ => []

/-- The items of a list; nothing else has any. -/
def items : Datum → List Datum
  | .list items => items
  | _ => []

/-- Settings files hold integers of 64 bits. -/
def isWord (v : Int) : Bool := IntegerClass.contains v (.signed 64)

/-- An integer that needs more bits becomes the nearest float. -/
def ofInt (v : Int) : Datum :=
  if isWord v then .integer v else .float (.ofDecimal (v < 0) v.natAbs 0)

end Datum

end AssetShell
