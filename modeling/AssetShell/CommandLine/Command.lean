import AssetShell.CommandLine.Argument
import AssetShell.Reference.Key

/-!
# Commands

What a user can ask for on the command line. The name of a settings file may stand before the name of
the command and among its arguments; there it counts more. What cannot be read as a command is
refused as a whole.
-/

namespace AssetShell

inductive Command
  | checkReference (kind : ReferenceKind) (keys : List Key)
  | checkLiteral (tag raw : String) (typed : Bool)
  | checkFiles (root : String) (report : Option String) (failFast : Bool)
  | exportDocument (file : String) (typed : Bool)
  | showSettings
  deriving DecidableEq, Repr

structure Invocation where
  settingsFile : Option String
  command : Command
  deriving DecidableEq, Repr

namespace Command

def settingsOption : CommandOption := { name := "config", mark := some 'c' }

def kindOption : CommandOption := { name := "kind" }

def keyOption : CommandOption := { name := "key", mark := some 'k', repeatable := true }

def typeOption : CommandOption := { name := "type", mark := some 't' }

def typedOption : CommandOption := { name := "typed", isSwitch := true }

def reportOption : CommandOption := { name := "output", mark := some 'o' }

def failFastOption : CommandOption := { name := "fail-fast", isSwitch := true }

/-- A path has at least one character. -/
def path? (s : String) : Option String := if s.isEmpty then none else some s

def optionalPath? : Option String → Option (Option String)
  | none => some none
  | some s => (path? s).map some

def toOption {ε α : Type} : Except ε α → Option α
  | .ok a => some a
  | .error _ => none

def single? : List String → Option String
  | [s] => some s
  | _ => none

/-- A form of command: its options, and how it is read from what was gathered. -/
structure Form where
  options : List CommandOption
  read? (g : Gathered) : Option Command

def referenceForm : Form where
  options := [kindOption, keyOption]
  read? g := do
    if !g.plain.isEmpty then failure
    let kind ← toOption (ReferenceKind.ofName (← g.value? kindOption.name))
    let keys ← (g.values keyOption.name).mapM fun s => toOption (Key.ofText s)
    if keys.isEmpty then failure
    return .checkReference kind keys

def literalForm : Form where
  options := [typeOption, typedOption]
  read? g := do
    let raw ← single? g.plain
    let tag ← g.value? typeOption.name
    return .checkLiteral tag raw (g.isSet typedOption.name)

def checkForm : Form where
  options := [reportOption, failFastOption]
  read? g := do
    let root ← path? (← single? g.plain)
    let report ← optionalPath? (g.value? reportOption.name)
    return .checkFiles root report (g.isSet failFastOption.name)

def exportForm : Form where
  options := [typedOption]
  read? g := do
    let file ← path? (← single? g.plain)
    return .exportDocument file (g.isSet typedOption.name)

def settingsForm : Form where
  options := []
  read? g := if g.plain.isEmpty then some .showSettings else none

def forms : Named Form := [("reference", referenceForm), ("literal", literalForm),
  ("check", checkForm), ("export", exportForm), ("config", settingsForm)]

end Command

namespace Invocation

/-- The settings file named before the command, the name of the command, and its arguments. -/
def split? : List String → Option (Option String × String × List String)
  | [] => none
  | arg :: rest =>
    let form := Argument.ofText arg
    if Command.settingsOption.isNamed form then
      match form.value?, rest with
      | some file, name :: rest => some (some file, name, rest)
      | none, file :: name :: rest =>
        match Argument.ofText file with
        | .plain file => some (some file, name, rest)
        | _ => none
      | _, _ => none
    else some (none, arg, rest)

def ofArguments? (args : List String) : Option Invocation := do
  let (outer, name, rest) ← split? args
  let outer ← Command.optionalPath? outer
  let form ← Command.forms.get? name
  let g ← Gathered.ofArguments? (Command.settingsOption :: form.options) rest
  let inner ← Command.optionalPath? (g.value? Command.settingsOption.name)
  let command ← form.read? g
  return ⟨inner.or outer, command⟩

end Invocation

end AssetShell
