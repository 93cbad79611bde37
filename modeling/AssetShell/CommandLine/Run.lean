import AssetShell.CommandLine.Command
import AssetShell.Literal.Typed
import AssetShell.Report
import AssetShell.Settings.Load
import AssetShell.Settings.Written

/-!
# Runs

What a call prints and the code with which it exits. Settings are loaded first, whatever the command.
A check may have to write a report file before it can go on, whose text depends on the time at which it
is written; how the check goes on depends on whether the file could be written.
-/

namespace AssetShell

structure Output where
  exitCode : Nat
  out : String
  err : String
  deriving DecidableEq, Repr

inductive Run
  | finished (output : Output)
  | writing (path : String) (text : Date → ClockTime → String)
    (next : Option FileFault → Output)

namespace Run

def usageCode : Nat := 2

def usage : Output :=
  ⟨usageCode, "", "Usage: aas-validator [--config FILE] "
    ++ ("|".intercalate (Command.forms.map Prod.fst)) ++ " ...\n"⟩

def done (out : String) : Output := ⟨0, out, ""⟩

def refused (out : String) : Output := ⟨1, out, ""⟩

def broken (out message : String) : Output := ⟨1, out, "Error: " ++ message ++ "\n"⟩

/-- Nothing more is said about settings that cannot be loaded. -/
def noSettings : Output := ⟨1, "", "Error: Failed to load configuration"⟩

def reference (kind : ReferenceKind) (keys : List Key) : Output :=
  let shown := Reference.displayChain kind keys
  match Reference.ofKeys kind keys with
  | .ok _ => done ("✅ " ++ shown ++ "\n")
  | .error f => refused ("❌ " ++ shown ++ "\n   " ++ f.message ++ "\n")

def typedLine (d : Datatype) (raw : String) : String :=
  "   typed: " ++ (TypedValue.ofLiteral d raw).toJson.compactText ++ "\n"

def literal (tag raw : String) (typed : Bool) : Output :=
  match Datatype.ofTag? tag with
  | none => refused ("❌ " ++ Datatype.unknownMessage tag ++ "\n")
  | some d =>
    match Literal.check d raw with
    | .error f => refused ("❌ " ++ f.message ++ "\n")
    | .ok () =>
      done ("✅ '" ++ raw ++ "' is a valid " ++ d.name ++ "\n"
        ++ (if typed then typedLine d raw else ""))

/-! ## Checks of files -/

def reportLines (r : Report) : String :=
  match r.fault? with
  | none => "  ✅ " ++ r.pathText ++ " (" ++ toString r.entities ++ " entities)\n"
  | some f => "  ❌ " ++ r.pathText ++ "\n     └─ " ++ f.message ++ "\n"

def verdict (reports : List Report) : Nat × String :=
  let failed := reports.countP Report.failed
  if reports.isEmpty then (1, "❌ No documents found")
  else if 0 < failed then
    (1, "❌ " ++ toString failed ++ " of " ++ toString reports.length ++ " document(s) failed")
  else (0, "✅ All " ++ toString reports.length ++ " document(s) valid")

def checkedOutput (before : String) (reports : List Report) : Output :=
  let (code, line) := verdict reports
  ⟨code, before ++ "\n" ++ line ++ "\n", ""⟩

def listing (root : String) (reports : List Report) : String :=
  "🔍 Checking " ++ root ++ "\n" ++ String.join (reports.map reportLines)

def files (s : CheckSettings) (around : Surroundings) (root : String) (report : Option String) :
    Run :=
  let reports := Report.run around.wording s root (around.entry root)
  let listed := listing root reports
  match report with
  | none => .finished (checkedOutput listed reports)
  | some path =>
    .writing path (fun date time => Report.summary date time root reports) fun fault =>
      match fault with
      | some f => broken listed ("Failed to write " ++ path ++ ": " ++ f.message)
      | none =>
        checkedOutput (listed ++ "✅ Report written to " ++ Quoted.ofString path ++ "\n") reports

/-! ## Exports -/

/-- A fault of decoding is said twice. -/
def faultChain (wording : String) : Fault → String
  | .violation v => v.message
  | .decode f =>
    let said := f.explanation?.getD wording
    "JSON error: " ++ said ++ ": " ++ said

def documentText (around : Surroundings) (file : String) : Except FileFault String :=
  match around.entry file with
  | .ok e => e.text
  | .error f => .error f

def document (s : ExportSettings) (around : Surroundings) (file : String) (typed : Bool) : Output :=
  match documentText around file with
  | .error f => broken "" ("Failed to read " ++ file ++ ": " ++ f.message)
  | .ok text =>
    match Document.read text with
    | .error f => broken "" (faultChain (around.wording text) f)
    | .ok entities =>
      let exports := Document.exports (typed || s.typedValues) entities
      done (s.outputFormat.render (Document.assemble exports) ++ "\n")

def command (s : Settings) (around : Surroundings) : Command → Run
  | .checkReference kind keys => .finished (reference kind keys)
  | .checkLiteral tag raw typed => .finished (literal tag raw typed)
  | .checkFiles root report failFast =>
    files { s.checks with failFast := s.checks.failFast || failFast } around root report
  | .exportDocument file typed => .finished (document s.exports around file typed)
  | .showSettings => .finished (done s.text)

/-- A run at some moment whose files are held in memory: the folder afterwards, and the output. -/
def within (base : Entry) (date : Date) (time : ClockTime) : Run → Entry × Output
  | .finished output => (base, output)
  | .writing path text next =>
    match base.write path (text date time).toUTF8 with
    | .ok base => (base, next none)
    | .error f => (base, next (some f))

end Run

def Command.input? : Command → Option String
  | .checkFiles root _ _ => some root
  | .exportDocument file _ => some file
  | _ => none

def Invocation.lookups (settingsFolder : Option String) (i : Invocation) : List String :=
  Settings.places settingsFolder i.settingsFile ++ i.command.input?.toList

def Invocation.run (around : Surroundings) (i : Invocation) : Run :=
  match Settings.load? around i.settingsFile with
  | none => .finished Run.noSettings
  | some s => Run.command s around i.command

def Run.ofArguments (around : Surroundings) (args : List String) : Run :=
  match Invocation.ofArguments? args with
  | none => .finished usage
  | some i => i.run around

end AssetShell
