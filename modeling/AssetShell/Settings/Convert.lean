import AssetShell.Number.Positional
import AssetShell.Settings.Basic
import AssetShell.Settings.Datum

/-!
# Settings from merged layers

A setting takes any datum that can be read as one of its type: a boolean also from a number or from
one of eight words, a text in a list also from a boolean or a number. A section is a table, or a list
of its settings in their order. Names that are no setting are ignored.
-/

namespace AssetShell

namespace Datum

def smallText (s : String) : String := String.ofList (s.toList.map Char.toLower)

def isZero : Binary64 → Bool
  | .finite _ m _ => m = 0
  | _ => false

/-- A number stands for true unless it is zero. -/
def toBool? : Datum → Option Bool
  | .boolean b => some b
  | .integer v => some (v ≠ 0)
  | .float v => some (!isZero v)
  | .text s =>
    if ["1", "true", "on", "yes"].contains (smallText s) then some true
    else if ["0", "false", "off", "no"].contains (smallText s) then some false
    else none
  | _ => none

def toText? : Datum → Option String
  | .text s => some s
  | .boolean b => some (if b then "true" else "false")
  | .integer v => some (toString v)
  | .float v => some v.positionalText
  | _ => none

def toTexts? : Datum → Option (List String)
  | .list items => items.mapM toText?
  | _ => none

def formatOfName? (name : String) : Option OutputFormat :=
  OutputFormat.all.find? fun f => smallText f.name = smallText name

/-- A table with one entry stands for the name of that entry. -/
def toFormat? : Datum → Option OutputFormat
  | .text s => formatOfName? s
  | .table [(name, _)] => formatOfName? name
  | _ => none

/-- The settings of a section by name. The items of a list have the names in order. -/
def section? (names : List String) : Datum → Option (Named Datum)
  | .table entries => some entries
  | .list items => some (names.zip items)
  | _ => none

/-- What is read under a name, or the default if there is nothing. -/
def read? {α : Type} (entries : Named Datum) (name : String) (convert : Datum → Option α)
    (default : α) : Option α :=
  match entries.get? name with
  | none => some default
  | some v => convert v

end Datum

def ExportSettings.ofDatum? (v : Datum) : Option ExportSettings := do
  let entries ← v.section? ["typed_values", "output_format"]
  let blank : ExportSettings := {}
  let typedValues ← Datum.read? entries "typed_values" Datum.toBool? blank.typedValues
  let outputFormat ← Datum.read? entries "output_format" Datum.toFormat? blank.outputFormat
  return { typedValues, outputFormat }

def CheckSettings.ofDatum? (v : Datum) : Option CheckSettings := do
  let entries ← v.section? ["extensions", "ignore_paths", "fail_fast"]
  let blank : CheckSettings := {}
  let extensions ← Datum.read? entries "extensions" Datum.toTexts? blank.extensions
  let ignorePaths ← Datum.read? entries "ignore_paths" Datum.toTexts? blank.ignorePaths
  let failFast ← Datum.read? entries "fail_fast" Datum.toBool? blank.failFast
  return { extensions, ignorePaths, failFast }

def Settings.ofEntries? (entries : Named Datum) : Option Settings := do
  let exports ← Datum.read? entries "export" ExportSettings.ofDatum? {}
  let checks ← Datum.read? entries "check" CheckSettings.ofDatum? {}
  return { exports, checks }

end AssetShell
