import AssetShell.Files.Walk
import AssetShell.Literal.Typed
import AssetShell.Settings.Basic

/-!
# Reports on files

A check walks through a root. Every file that the settings choose is read as a document, and a report
says how many entities it holds or why it is refused. A root or a folder that cannot be listed is
reported itself. A check may stop at the first failed report.
-/

namespace AssetShell

/-- `wording` is what the JSON library says of the text of the document. -/
inductive ReportFault
  | document (fault : Fault) (wording : String)
  | file (fault : FileFault)
  | walk (path : String) (fault : FileFault)
  deriving DecidableEq, Repr

namespace ReportFault

def rule : ReportFault → String
  | .document f _ => f.rule
  | .file _ => "io-error"
  | .walk .. => "io-error"

def message : ReportFault → String
  | .document f wording => f.message wording
  | .file f => "IO error: " ++ f.message
  | .walk path f => "IO error: IO error for operation on " ++ path ++ ": " ++ f.message

end ReportFault

structure Report where
  path : List String
  outcome : Except ReportFault Nat

namespace Report

def pathText (r : Report) : String := "/".intercalate r.path

def fault? (r : Report) : Option ReportFault :=
  match r.outcome with
  | .ok _ => none
  | .error f => some f

def entities (r : Report) : Nat :=
  match r.outcome with
  | .ok n => n
  | .error _ => 0

def failed (r : Report) : Bool := r.fault?.isSome

/-- The name of the root, or its text if it does not end in a name. -/
def rootPlace (root : String) : List String := [((Path.ofText root).fileName?).getD root]

/-- The place in a report on what the names lead to, seen from the root. -/
def placeIn (root : String) : List String → List String
  | [] => rootPlace root
  | names => names

def joined (path name : String) : String :=
  if path.toList.getLast? = some '/' then path ++ name else path ++ "/" ++ name

/-! ## The check of a root -/

section Check

variable (wording : String → String) (s : CheckSettings) (root : String)

/-- The number of entities that a file holds, given what reading its bytes gives. -/
def countEntities (content : Except FileFault ByteArray) : Except ReportFault Nat :=
  match Entry.textOf content with
  | .error f => .error (.file f)
  | .ok text =>
    match Document.read text with
    | .error f => .error (.document f (wording text))
    | .ok entities => .ok entities.length

/-- The report on what a walk met, unless the check passes over it. -/
def ofFound? (f : Found) : Option Report :=
  let place := placeIn root f.path
  match f.sight with
  | .file content =>
    if s.matchesExtension (.ofNames place) then some ⟨place, countEntities wording content⟩
    else none
  | .folder => none
  | .fault fault => some ⟨place, .error (.walk (f.path.foldl joined root) fault)⟩

/-- The reports after one more thing was met, and whether the check stops there. A report that makes it
stop is one of them. -/
def turn (reports : Array Report) (f : Found) : Array Report × Bool :=
  match ofFound? wording s root f with
  | none => (reports, false)
  | some r => (reports.push r, r.failed && s.failFast)

def loop (reports : Array Report) : List Found → Array Report
  | [] => reports
  | f :: rest =>
    match turn wording s root reports f with
    | (reports, true) => reports
    | (reports, false) => loop reports rest

def ignores (s : CheckSettings) (place : List String) : Bool := s.isIgnored (.ofNames place)

/-- What a walk through the root meets, as the root was looked up. -/
def foundIn (s : CheckSettings) : Except FileFault Entry → List Found
  | .error fault => [⟨[], .fault fault⟩]
  | .ok e => e.walk (ignores s) []

def run (e : Except FileFault Entry) : List Report :=
  (loop wording s root #[] (foundIn s e)).toList

end Check

/-! ## The file with all reports -/

def faultMembers (f : ReportFault) : List (String × Json) :=
  [("rule", .string f.rule), ("message", .string f.message)]

def toJson (r : Report) : Json :=
  .object ([("path", .string r.pathText), ("entities", .ofNat r.entities)]
    ++ Json.optionalMember "failure" (r.fault?.map fun f => .object (faultMembers f)))

/-- The text of a file with all reports on a root, made at a moment of universal time. -/
def summary (date : Date) (time : ClockTime) (root : String) (reports : List Report) : String :=
  Json.prettyText (.object [("generated_at", (TypedValue.dateTime date time .utc).toJson),
    ("root", .string root), ("files", .ofNat reports.length),
    ("failed", .ofNat (reports.countP failed)), ("reports", .array (reports.map toJson))])

end Report

end AssetShell
