import AssetShell.Named
import AssetShell.Text.Split

/-!
# Files and folders

An entry is a file with its bytes or a folder of named entries. A closed file cannot be read, and the
entries of a closed folder cannot be listed. Reading goes from a folder along the pieces of a path
text: an empty piece and a dot stay where they are, two dots go up, a name goes down. Only from a
folder can one go on.
-/

namespace AssetShell

inductive FileFault
  | notFound
  | notFolder
  | isFolder
  | denied
  | notText
  | other (text : String)
  deriving DecidableEq, Repr

def FileFault.message : FileFault → String
  | .notFound => "No such file or directory (os error 2)"
  | .notFolder => "Not a directory (os error 20)"
  | .isFolder => "Is a directory (os error 21)"
  | .denied => "Permission denied (os error 13)"
  | .notText => "stream did not contain valid UTF-8"
  | .other text => text

inductive Entry
  | file (content : ByteArray)
  | folder (children : List (String × Entry))
  | closedFile (fault : FileFault)
  | closedFolder (fault : FileFault)

namespace Entry

def empty : Entry := .folder []

/-- The text of a file, given what reading its bytes gives. -/
def textOf : Except FileFault ByteArray → Except FileFault String
  | .error fault => .error fault
  | .ok content =>
    match String.fromUTF8? content with
    | some s => .ok s
    | none => .error .notText

def text : Entry → Except FileFault String
  | .file content => textOf (.ok content)
  | .closedFile fault => .error fault
  | .folder _ => .error .isFolder
  | .closedFolder fault => .error fault

/-- The entry at the end of the pieces. `outer` holds the folders around `e`, innermost first;
outside of them nothing is known. -/
def follow (outer : List Entry) (e : Entry) : List String → Except FileFault Entry
  | [] => .ok e
  | piece :: pieces =>
    match e with
    | .file _ => .error .notFolder
    | .closedFile _ => .error .notFolder
    | .closedFolder fault => .error fault
    | .folder children =>
      if piece = "" ∨ piece = "." then follow outer e pieces
      else if piece = ".." then
        match outer with
        | [] => .error .notFound
        | up :: outer => follow outer up pieces
      else
        match Named.get? piece children with
        | some found => follow (e :: outer) found pieces
        | none => .error .notFound

/-- The entry that a path text names, seen from a folder. -/
def lookup (base : Entry) (path : String) : Except FileFault Entry :=
  match splitText '/' path with
  | [] => .error .notFound
  | first :: pieces => if first = "" then .error .notFound else follow [] base (first :: pieces)

/-- Puts an entry at the end of the names. Folders that are missing on the way are made. -/
def place : Entry → List String → Entry → Entry
  | _, [], e => e
  | .folder children, name :: names, e =>
    .folder (Named.put name (place ((Named.get? name children).getD empty) names e) children)
  | _, name :: names, e => .folder [(name, place empty names e)]

/-! ## Writing -/

/-- The names that lead to the folder at the end of the pieces. `back` holds those so far, last
first. -/
def folderNames (base : Entry) (back : List String) : List String → Except FileFault (List String)
  | [] => .ok back.reverse
  | piece :: pieces =>
    if piece = "" ∨ piece = "." then folderNames base back pieces
    else if piece = ".." then
      match back with
      | [] => .error .notFound
      | _ :: back => folderNames base back pieces
    else
      match follow [] base (back.reverse ++ [piece]) with
      | .error f => .error f
      | .ok (.file _) => .error .notFolder
      | .ok (.closedFile _) => .error .notFolder
      | .ok (.closedFolder fault) => .error fault
      | .ok (.folder _) => folderNames base (piece :: back) pieces

/-- Writes the file called `last` in a folder; the file may be there already, a folder may not. -/
def writeIn (base : Entry) (names : List String) (last : String) (content : ByteArray) :
    Except FileFault Entry :=
  if last = "" ∨ last = "." ∨ last = ".." then .error .isFolder
  else
    match follow [] base (names ++ [last]) with
    | .ok (.folder _) => .error .isFolder
    | .ok (.closedFolder _) => .error .isFolder
    | .ok (.closedFile fault) => .error fault
    | _ => .ok (base.place (names ++ [last]) (.file content))

/-- Writes a file at a path text. A slash behind the last name asks for a folder. -/
def write (base : Entry) (path : String) (content : ByteArray) : Except FileFault Entry :=
  match (splitText '/' path).reverse.span (· = "") with
  | (_, []) => .error .notFound
  | (slashes, last :: before) =>
    match before.reverse with
    | "" :: _ => .error .notFound
    | pieces =>
      match folderNames base [] pieces with
      | .error f => .error f
      | .ok names => writeIn base names (if slashes.isEmpty then last else "") content

end Entry

end AssetShell
