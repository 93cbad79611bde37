import AssetShell.Number.Shortest

/-!
# Values of the interchange format

Objects keep their members in order, repeated names included. The canonical form of a value sorts
the members of each object by name and keeps of a repeated name the last member only.
-/

namespace AssetShell

inductive Json.Number
  | integer (value : Int)
  | double (value : Binary64)
  deriving DecidableEq, Repr

inductive Json
  | null
  | bool (value : Bool)
  | number (value : Json.Number)
  | string (value : String)
  | array (items : List Json)
  | object (members : List (String × Json))
  deriving Repr, Inhabited

namespace Json

def ofInt (v : Int) : Json := .number (.integer v)

def ofNat (n : Nat) : Json := ofInt n

mutual

def depth : Json → Nat
  | .array items => depthOfItems items + 1
  | .object members => depthOfMembers members + 1
  | _ => 0

def depthOfItems : List Json → Nat
  | [] => 0
  | v :: r => max v.depth (depthOfItems r)

def depthOfMembers : List (String × Json) → Nat
  | [] => 0
  | (_, v) :: r => max v.depth (depthOfMembers r)

end

/-- Puts a member into members sorted by name; a member of that name gives way. -/
def insertMember (name : String) (v : Json) : List (String × Json) → List (String × Json)
  | [] => [(name, v)]
  | (other, w) :: r =>
    if name < other then (name, v) :: (other, w) :: r
    else if name = other then (name, v) :: r
    else (other, w) :: insertMember name v r

def sortMembers (members : List (String × Json)) : List (String × Json) :=
  members.foldl (fun sorted (name, v) => insertMember name v sorted) []

mutual

def canonical : Json → Json
  | .array items => .array (canonicalItems items)
  | .object members => .object (sortMembers (canonicalMembers members))
  | .null => .null
  | .bool b => .bool b
  | .number n => .number n
  | .string s => .string s

def canonicalItems : List Json → List Json
  | [] => []
  | v :: r => v.canonical :: canonicalItems r

def canonicalMembers : List (String × Json) → List (String × Json)
  | [] => []
  | (name, v) :: r => (name, v.canonical) :: canonicalMembers r

end

/-- The value under a name, of the last member with it. -/
def member? (name : String) : Json → Option Json
  | .object members => (members.reverse.find? (·.1 = name)).map Prod.snd
  | _ => none

end Json

end AssetShell
