import AssetShell.Ini
import AssetShell.Json.Outline
import AssetShell.Json5
import AssetShell.Ron
import AssetShell.Settings.Datum
import AssetShell.Toml.Statement
import AssetShell.Yaml.Document

/-!
# Formats of settings files

A settings file has a format, known by the extension of its name. Read in its format, a file holds
one table.
-/

namespace AssetShell

namespace Toml

/-- A table with this name in front stands for the moment under it. -/
def momentName : String := "$__toml_private_datetime"

def momentText? : Toml → Option String
  | .string s =>
    match Word.moment? s.toList with
    | some (.moment text) => some text
    | _ => none
  | _ => none

mutual

/-- Moments become texts. -/
def toDatum? : Toml → Option Datum
  | .string s => some (.text s)
  | .integer v => some (.integer v)
  | .float v => some (.float v)
  | .boolean b => some (.boolean b)
  | .moment text => some (.text text)
  | .array items => (itemData? items).map .list
  | .table [] => some (.table [])
  | .table ((name, v) :: r) =>
    if name = momentName then (momentText? v).map .text
    else
      match toDatum? v, entryData? r with
      | some v, some r => some (.table ((name, v) :: r))
      | _, _ => none

def itemData? : List Toml → Option (List Datum)
  | [] => some []
  | v :: r =>
    match toDatum? v, itemData? r with
    | some v, some r => some (v :: r)
    | _, _ => none

def entryData? : List (String × Toml) → Option (Named Datum)
  | [] => some []
  | (name, v) :: r =>
    match toDatum? v, entryData? r with
    | some v, some r => some ((name, v) :: r)
    | _, _ => none

end

end Toml

namespace Json

/-- An integer that needs more than a word becomes a float. -/
def Number.toDatum : Number → Datum
  | .integer v => .ofInt v
  | .double v => .float v

mutual

def toDatum : Json → Datum
  | .null => .absent
  | .bool b => .boolean b
  | .number n => n.toDatum
  | .string s => .text s
  | .array items => .list (itemData items)
  | .object members => .table (memberData members)

def itemData : List Json → List Datum
  | [] => []
  | v :: r => v.toDatum :: itemData r

def memberData : List (String × Json) → Named Datum
  | [] => []
  | (name, v) :: r => (name, v.toDatum) :: memberData r

end

end Json

inductive SettingsFormat
  | toml
  | json
  | yaml
  | ini
  | ron
  | json5
  deriving DecidableEq, Repr

namespace SettingsFormat

def all : List SettingsFormat := [.toml, .json, .yaml, .ini, .ron, .json5]

def extensions : SettingsFormat → List String
  | .toml => ["toml"]
  | .json => ["json"]
  | .yaml => ["yaml", "yml"]
  | .ini => ["ini"]
  | .ron => ["ron"]
  | .json5 => ["json5"]

def ofExtension? (e : String) : Option SettingsFormat := all.find? (·.extensions.contains e)

def datum? (s : String) : SettingsFormat → Option Datum
  | .toml => (Toml.ofText? s).bind fun entries => (Toml.table entries).toDatum?
  | .json => (Json.ofText? s).map Json.toDatum
  | .yaml => Yaml.ofText? s
  | .ini => (Ini.ofText? s).map .table
  | .ron => Ron.ofText? s
  | .json5 => Json5.ofText? s

/-- The entries of the table that a text of the format holds. -/
def read? (f : SettingsFormat) (s : String) : Option (Named Datum) :=
  match f.datum? s with
  | some (.table entries) => some entries
  | _ => none

end SettingsFormat

end AssetShell
