import AssetShell.CommandLine.Run
import Mathlib.Tactic.DeprecateTo

/-!
# The program

Reads from the file system what a call looks up, runs the call, writes its report file if it has
one, and prints.
-/

namespace AssetShell

namespace Program

def faultOf : IO.Error → FileFault
  | .noFileOrDirectory .. => .notFound
  | .permissionDenied .. => .denied
  | .inappropriateType _ _ details =>
    if details = "not a directory" then .notFolder else .isFolder
  | e => .other (toString e)

def readFile (path : String) : IO Entry := do
  try
    return .file (← IO.FS.readBinFile path)
  catch e => return .closedFile (faultOf e)

mutual

/-- The folder with the entries that are listed. Where they cannot be listed it is closed. -/
partial def readFolder (listed : IO (Array IO.FS.DirEntry)) : IO Entry := do
  try
    return .folder (← (← listed).toList.filterMapM readChild)
  catch e => return .closedFolder (faultOf e)

/-- The entry in a folder, unless it is neither a file nor a folder itself. What cannot be read leaves
the entries beside it as they are. -/
partial def readChild (e : IO.FS.DirEntry) : IO (Option (String × Entry)) := do
  try
    match (← e.path.symlinkMetadata).type with
    | .file => return some (e.fileName, ← readFile e.path.toString)
    | .dir => return some (e.fileName, ← readFolder e.path.readDir)
    | _ => return none
  catch f => return some (e.fileName, .closedFile (faultOf f))

end

/-- The entry at the end of a path, links followed. -/
def lookup (path : String) : IO (String × Except FileFault Entry) := do
  try
    let place ← IO.FS.realPath path
    match (← place.metadata).type with
    | .dir => return (path, .ok (← readFolder place.readDir))
    | _ => return (path, .ok (← readFile path))
  catch e => return (path, .error (faultOf e))

def variableOf (piece : List Char) : Option Variable :=
  match piece.span (· ≠ '=') with
  | (_, []) => none
  | (name, _ :: value) => some ⟨String.ofList name, String.ofList value⟩

/-- The texts between zero bytes. What is no text is left out. -/
def textsOf (bytes : ByteArray) : List String :=
  (bytes.toList.splitOnP (· = 0)).filterMap fun piece => String.fromUTF8? (ByteArray.mk piece.toArray)

/-- The variables of the environment, or none where they cannot be listed. -/
def readVariables : IO (List Variable) := do
  try
    return (textsOf (← IO.FS.readBinFile "/proc/self/environ")).filterMap fun s =>
      variableOf s.toList
  catch _ => return []

/-- The folder of personal settings of the program. -/
def readSettingsFolder : IO (Option String) := do
  let named ← IO.getEnv "XDG_CONFIG_HOME"
  let home ← IO.getEnv "HOME"
  let base := (named.filter (·.startsWith "/")).or (home.map (· ++ "/.config"))
  return base.map (· ++ "/aas-validator")

/-- What is said of a document that is no JSON text of the expected form. -/
def wording : String := "the text is not of the expected form"

def readSurroundings (i : Invocation) : IO Surroundings := do
  let settingsFolder ← readSettingsFolder
  let environment ← readVariables
  let found ← (i.lookups settingsFolder).mapM lookup
  return ⟨fun path => (Named.get? path found).getD (.error .notFound), settingsFolder, environment,
    fun _ => wording⟩

/-- The date and the time of the day, of universal time, by the clock of `Std.Time`. -/
def now : IO (Date × ClockTime) := do
  let t := Std.Time.DateTime.ofTimestampWithZone (← Std.Time.Timestamp.now) .UTC
  let date := Date.ofFields? t.year.toInt.toNat t.month.toNat t.day.toNat
  let time := ClockTime.ofFields? t.hour.toNat t.minute.toNat t.second.toNat t.nanosecond.toNat
  match date, time with
  | some date, some time => return (date, time)
  | _, _ => throw (IO.userError "the clock is out of range")

def writeReport (path : String) (text : Date → ClockTime → String) : IO (Option FileFault) := do
  try
    let (date, time) ← now
    IO.FS.writeFile path (text date time)
    return none
  catch e => return some (faultOf e)

def finish : Run → IO Output
  | .finished output => return output
  | .writing path text next => return next (← writeReport path text)

def call (args : List String) : IO Output := do
  match Invocation.ofArguments? args with
  | none => return Run.usage
  | some i => finish (i.run (← readSurroundings i))

end Program

end AssetShell

def main (args : List String) : IO UInt32 := do
  let output ← AssetShell.Program.call args
  IO.print output.out
  IO.eprint output.err
  return output.exitCode.toUInt32
