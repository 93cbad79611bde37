import AssetShell.Document
import AssetShell.Files.Path
import AssetShell.Text.Split

/-!
# Settings

What a user can choose about exports and about checks, with the default of each choice. Settings are
decoded from the interchange format and written in it.
-/

namespace AssetShell

structure ExportSettings where
  typedValues : Bool := false
  outputFormat : OutputFormat := .pretty
  deriving DecidableEq, Repr

structure CheckSettings where
  extensions : List String := ["json"]
  ignorePaths : List String := []
  failFast : Bool := false
  deriving DecidableEq, Repr

structure Settings where
  exports : ExportSettings := {}
  checks : CheckSettings := {}
  deriving DecidableEq, Repr

namespace ExportSettings

def scheme : Scheme ExportSettings where
  blank := {}
  fields := [
    .optional "typed_values" .bool fun s typedValues => { s with typedValues },
    .optional "output_format" OutputFormat.decoder fun s outputFormat => { s with outputFormat }]
  blocks := []

def toJson (s : ExportSettings) : Json :=
  .object [("typed_values", .bool s.typedValues), ("output_format", .string s.outputFormat.name)]

end ExportSettings

namespace CheckSettings

def scheme : Scheme CheckSettings where
  blank := {}
  fields := [
    .optional "extensions" (.list .string) fun s extensions => { s with extensions },
    .optional "ignore_paths" (.list .string) fun s ignorePaths => { s with ignorePaths },
    .optional "fail_fast" .bool fun s failFast => { s with failFast }]
  blocks := []

def toJson (s : CheckSettings) : Json :=
  .object [("extensions", .array (s.extensions.map .string)),
    ("ignore_paths", .array (s.ignorePaths.map .string)), ("fail_fast", .bool s.failFast)]

/-- Whether the extension of a path is one to check, in any case of its letters of ASCII. -/
def matchesExtension (s : CheckSettings) (p : Path) : Bool :=
  match p.extension? with
  | some found => s.extensions.any (sameLetters · found)
  | none => false

def isIgnored (s : CheckSettings) (p : Path) : Bool :=
  s.ignorePaths.any fun base => p.isUnder (.ofText base)

end CheckSettings

namespace Settings

def scheme : Scheme Settings where
  blank := {}
  fields := [
    .optional "export" ExportSettings.scheme.decoder fun s exports => { s with exports },
    .optional "check" CheckSettings.scheme.decoder fun s checks => { s with checks }]
  blocks := []

def toJson (s : Settings) : Json :=
  .object [("export", s.exports.toJson), ("check", s.checks.toJson)]

end Settings

end AssetShell
