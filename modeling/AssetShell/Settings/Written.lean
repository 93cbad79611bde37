import AssetShell.Settings.Basic
import AssetShell.Toml.Printer

/-!
# Written settings

The text of a settings file that gives every setting.
-/

namespace AssetShell

namespace ExportSettings

def lines (s : ExportSettings) : List Char :=
  Toml.headerLine "export"
    ++ Toml.entryLine "typed_values" (Toml.boolChars s.typedValues)
    ++ Toml.entryLine "output_format" (Toml.stringChars s.outputFormat.name.toList)

end ExportSettings

namespace CheckSettings

def lines (s : CheckSettings) : List Char :=
  Toml.headerLine "check"
    ++ Toml.entryLine "extensions" (Toml.arrayChars s.extensions)
    ++ Toml.entryLine "ignore_paths" (Toml.arrayChars s.ignorePaths)
    ++ Toml.entryLine "fail_fast" (Toml.boolChars s.failFast)

end CheckSettings

def Settings.text (s : Settings) : String :=
  String.ofList (s.exports.lines ++ '\n' :: s.checks.lines)

end AssetShell
