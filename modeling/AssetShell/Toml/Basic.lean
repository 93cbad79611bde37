import AssetShell.Named
import AssetShell.Number.Binary64

/-!
# Values of TOML

TOML texts hold tables of strings, numbers, booleans, moments of time, arrays and tables. A
moment is held as its text.
-/

namespace AssetShell

inductive Toml
  | string (value : String)
  | integer (value : Int)
  | float (value : Binary64)
  | boolean (value : Bool)
  | moment (text : String)
  | array (items : List Toml)
  | table (entries : List (String × Toml))
  deriving Repr

namespace Toml

/-- The entries of a table; nothing else has any. -/
def entries : Toml → Named Toml
  | .table entries => entries
  | _ => []

end Toml

end AssetShell
