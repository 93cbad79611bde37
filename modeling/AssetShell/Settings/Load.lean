import AssetShell.Files.Entry
import AssetShell.Settings.Convert
import AssetShell.Settings.Format
import AssetShell.Settings.Variables

/-!
# Loading settings

Settings are loaded from files at usual places, from a file that the user names, and from variables
of the environment, later ones winning. A file at a usual place may be missing; the named one may
not. A text that is there must be readable.
-/

namespace AssetShell

/-- What a run depends on besides its arguments: the entries at paths, the folder of personal settings,
the variables of the environment, and what the JSON library says of a text that it refuses in words of
its own. -/
structure Surroundings where
  entry : String → Except FileFault Entry
  settingsFolder : Option String
  environment : List Variable
  wording : String → String

namespace Settings

def fileName : String := "aas-validator.toml"

def usualPlaces : List String := [fileName, "." ++ fileName, "config/" ++ fileName]

def appended? (name extension : String) : Option String :=
  ((Path.ofText name).appending? ("." ++ extension)).map Path.text

/-- A name with each extension of settings files at its end. -/
def variants (name : String) : List (SettingsFormat × String) :=
  SettingsFormat.all.flatMap fun format =>
    (format.extensions.filterMap (appended? name)).map (format, ·)

/-- The file under a name, closed or not. -/
def fileAt? (around : Surroundings) (name : String) : Option Entry :=
  match around.entry name with
  | .ok (.file content) => some (.file content)
  | .ok (.closedFile fault) => some (.closedFile fault)
  | _ => none

/-- The settings file under a name, and its format. A file of that very name must have an extension
of settings files; if there is none, the extensions are appended. -/
def locate? (around : Surroundings) (name : String) : Option (SettingsFormat × Entry) :=
  match fileAt? around name with
  | some file =>
    ((Path.ofText name).extension?.bind SettingsFormat.ofExtension?).map (·, file)
  | none => (variants name).findSome? fun (format, name) => (fileAt? around name).map (format, ·)

/-- The text under a name, and its format. -/
def source? (around : Surroundings) (name : String) : Option (SettingsFormat × String) :=
  (locate? around name).bind fun (format, file) => file.text.toOption.map (format, ·)

/-- Where there is no text nothing is set. -/
def optionalLayer? (around : Surroundings) (name : String) : Option (Named Datum) :=
  match source? around name with
  | none => some []
  | some (format, s) => format.read? s

def personalPlace (folder : String) : String := folder ++ "/" ++ fileName

/-- The layer of the personal settings, if anything stands at their place. -/
def personalLayer? (around : Surroundings) : Option (Named Datum) :=
  match around.settingsFolder with
  | none => some []
  | some folder =>
    let name := personalPlace folder
    match around.entry name with
    | .ok _ => optionalLayer? around name
    | .error _ => some []

def namedLayer? (around : Surroundings) : Option String → Option (Named Datum)
  | none => some []
  | some name => (source? around name).bind fun (format, s) => format.read? s

/-- The layers in order, if all of them can be read. -/
def layers? (around : Surroundings) (named : Option String) : Option (List (Named Datum)) := do
  let usual ← usualPlaces.mapM (optionalLayer? around)
  let personal ← personalLayer? around
  let explicit ← namedLayer? around named
  return usual ++ [personal, explicit, Variable.layer around.environment]

/-- Every path at which loading may look. -/
def places (settingsFolder named : Option String) : List String :=
  (usualPlaces ++ (settingsFolder.map personalPlace).toList ++ named.toList).flatMap fun name =>
    name :: (variants name).map Prod.snd

def load? (around : Surroundings) (named : Option String) : Option Settings :=
  ((layers? around named).bind mergeLayers?).bind ofEntries?

end Settings

end AssetShell
