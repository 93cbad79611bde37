import AssetShell.Settings.Path

/-!
# Merging settings

Settings come in layers; a later layer wins over the earlier ones, name by name. Tables are merged
with what was there, every other datum replaces it whole. Names are compared without regard to case.
A name on the outermost level of a layer may be a path.
-/

namespace AssetShell

namespace Settings

/-- Small letters in place of capital ones. Besides the letters of ASCII this concerns the sign for
Kelvin, whose small letter is in ASCII; other letters do not occur in the names of settings. -/
def smallChar (c : Char) : Char := if c = '\u212a' then 'k' else c.toLower

def smallName (name : String) : String := String.ofList (name.toList.map smallChar)

mutual

/-- What becomes of a datum when another is set in its place. -/
def merge (old : Option Datum) : Datum → Datum
  | .table entries => mergeEntries (old.getD (.table [])) entries
  | v => v

/-- Sets entries one after the other. What is no table becomes one with the first entry. -/
def mergeEntries (old : Datum) : List (String × Datum) → Datum
  | [] => old
  | (name, v) :: r =>
    let name := smallName name
    mergeEntries (.table (old.entries.put name (merge (old.entries.get? name) v))) r

end

/-- The items with one of them set; places that are missing before it are absent. -/
def setItem (items : List Datum) (place : Nat) (v : Datum) : List Datum :=
  (items ++ List.replicate (place + 1 - items.length) Datum.absent).set place v

/-- Sets a datum at the end of a path. A name at the end merges, a place at the end replaces. What is
no table or no list on the way becomes one. There is no place before the first. -/
def setAt? (v : Datum) : List Step → Datum → Option Datum
  | [], _ => some v
  | [.name name], old =>
    let name := smallName name
    some (.table (old.entries.put name (merge (old.entries.get? name) v)))
  | .name name :: path, old =>
    let name := smallName name
    (setAt? v path ((old.entries.get? name).getD .absent)).map fun inner =>
      .table (old.entries.put name inner)
  | .place index :: path, old =>
    (Step.index? index old.items.length).bind fun place =>
      (setAt? v path (old.items[place]?.getD .absent)).map fun inner =>
        .list (setItem old.items place inner)

/-- One layer on top of what the earlier ones gave. -/
def addLayer? (base layer : Named Datum) : Option (Named Datum) :=
  layer.foldlM (fun base (key, v) => (setAt? v (Step.ofKey key) (.table base)).map Datum.entries) base

def mergeLayers? (layers : List (Named Datum)) : Option (Named Datum) := layers.foldlM addLayer? []

end Settings

end AssetShell
