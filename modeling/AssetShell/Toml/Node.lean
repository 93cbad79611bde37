import AssetShell.Toml.Basic

/-!
# Growing tables

While a TOML text is read its tables grow. Each table knows how it came to be, because that
decides what may still be added: a table with a header of its own has no second header and is not
reached by dotted keys; a table that dotted keys made has no header; a table that was only passed on
the way to another may get its header later. Values never grow.
-/

namespace AssetShell

namespace Toml

inductive Origin
  | header
  | passage
  | dotted
  deriving DecidableEq, Repr

/-- The tables of a repeated header are held last first. -/
inductive Node
  | value (v : Toml)
  | table (origin : Origin) (entries : List (String × Node))
  | tables (elements : List (List (String × Node)))

abbrev Nodes := Named Node

namespace Node

/-- Changes the table at the end of a path. Missing tables on the way are made; of repeated tables
the last is entered. Dotted keys do not enter a table with a header. -/
def change (dotted : Bool) (f : Origin → Nodes → Option Nodes) :
    List String → Origin → Nodes → Option Nodes
  | [], origin, nodes => f origin nodes
  | name :: path, _, nodes =>
    match Named.get? name nodes with
    | none =>
      let origin := if dotted then .dotted else .passage
      (change dotted f path origin []).map fun inner => Named.put name (.table origin inner) nodes
    | some (.table origin inner) =>
      if dotted ∧ origin = .header then none else
      (change dotted f path origin inner).map fun inner => Named.put name (.table origin inner) nodes
    | some (.tables (last :: before)) =>
      (change dotted f path .header last).map fun last =>
        Named.put name (.tables (last :: before)) nodes
    | some (.tables []) => none
    | some (.value _) => none

/-- Adds a value under a dotted key. The table that holds it was made by dotted keys, or else the key
has no dot. No key is given twice. -/
def assign (path : List String) (v : Toml) (nodes : Nodes) : Option Nodes :=
  match path.getLast? with
  | none => none
  | some name =>
    change true (fun origin nodes =>
      if (origin = .dotted) = (path.length = 1) then none
      else
        match Named.get? name nodes with
        | none => some (Named.put name (.value v) nodes)
        | some _ => none) path.dropLast .header nodes

def openTable (path : List String) (nodes : Nodes) : Option Nodes :=
  match path.getLast? with
  | none => none
  | some name =>
    change false (fun _ nodes =>
      match Named.get? name nodes with
      | none => some (Named.put name (.table .header []) nodes)
      | some (.table .passage inner) => some (Named.put name (.table .header inner) nodes)
      | _ => none) path.dropLast .header nodes

def openElement (path : List String) (nodes : Nodes) : Option Nodes :=
  match path.getLast? with
  | none => none
  | some name =>
    change false (fun _ nodes =>
      match Named.get? name nodes with
      | none => some (Named.put name (.tables [[]]) nodes)
      | some (.tables elements) => some (Named.put name (.tables ([] :: elements)) nodes)
      | _ => none) path.dropLast .header nodes

mutual

def toToml : Node → Toml
  | .value v => v
  | .table _ nodes => .table (entriesOf nodes)
  | .tables elements => .array (elementsOf elements).reverse

def entriesOf : List (String × Node) → Named Toml
  | [] => []
  | (name, node) :: r => (name, node.toToml) :: entriesOf r

def elementsOf : List (List (String × Node)) → List Toml
  | [] => []
  | nodes :: r => .table (entriesOf nodes) :: elementsOf r

end

end Node

def ofPairs? (pairs : List (List String × Toml)) : Option Toml :=
  (pairs.foldlM (fun nodes (path, v) => Node.assign path v nodes) []).map fun nodes =>
    .table (Node.entriesOf nodes)

end Toml

end AssetShell
