/-!
# Paths

A path is a sequence of parts. Repeated and trailing slashes vanish, and so does a dot that stands
for the folder itself, unless it starts the path. One path lies under another if the parts of the
other are the first of its own.
-/

namespace AssetShell

inductive Path.Part
  | root
  | current
  | parent
  | name (text : String)
  deriving DecidableEq, Repr

structure Path where
  parts : List Path.Part
  deriving DecidableEq, Repr

namespace Path

/-- The part that a piece between slashes stands for. -/
def Part.ofPiece? (piece : List Char) : Option Part :=
  if piece = [] ∨ piece = ['.'] then none
  else if piece = ['.', '.'] then some .parent
  else some (.name (String.ofList piece))

def ofText (s : String) : Path :=
  match s.toList.splitOn '/' with
  | [] :: piece :: pieces => ⟨.root :: (piece :: pieces).filterMap Part.ofPiece?⟩
  | ['.'] :: pieces => ⟨.current :: pieces.filterMap Part.ofPiece?⟩
  | pieces => ⟨pieces.filterMap Part.ofPiece?⟩

def ofNames (names : List String) : Path := ⟨names.map .name⟩

def fileName? (p : Path) : Option String :=
  match p.parts.getLast? with
  | some (.name text) => some text
  | _ => none

/-- What follows the last point of a name, where something precedes that point. -/
def extensionOf? (name : List Char) : Option (List Char) :=
  match name.reverse.span (· ≠ '.') with
  | (_, []) => none
  | (_, [_]) => none
  | (tail, _ :: _ :: _) => some tail.reverse

def extension? (p : Path) : Option String :=
  p.fileName?.bind fun name => (extensionOf? name.toList).map String.ofList

def isUnder (p base : Path) : Bool := base.parts.isPrefixOf p.parts

def Part.text : Part → String
  | .root => ""
  | .current => "."
  | .parent => ".."
  | .name text => text

/-- The shortest text of a path; the root alone is a slash. -/
def text (p : Path) : String :=
  if p.parts = [.root] then "/" else "/".intercalate (p.parts.map Part.text)

/-- The path with more text at the end of its last name. -/
def appending? (p : Path) (suffix : String) : Option Path :=
  p.fileName?.map fun name => ⟨p.parts.dropLast ++ [.name (name ++ suffix)]⟩

end Path

end AssetShell
