import AssetShell.Files.Entry

/-!
# Walks

A walk goes through a folder depth first and meets the entries of each folder in the order of their
names, a folder before what it holds. It leaves out the entries at ignored places, folders with all
that they hold. The entry from which it starts is not asked about. Behind a folder whose entries cannot
be listed it meets the fault of listing them.
-/

namespace AssetShell

/-- What a walk meets: a file, with what reading it gives, a folder, or the fault of listing one. -/
inductive Sight
  | file (content : Except FileFault ByteArray)
  | folder
  | fault (fault : FileFault)

/-- What a walk meets, and the names that lead to it. -/
structure Found where
  path : List String
  sight : Sight

namespace Entry

mutual

def walk (ignored : List String → Bool) (place : List String) : Entry → List Found
  | .file content => [⟨place, .file (.ok content)⟩]
  | .closedFile fault => [⟨place, .file (.error fault)⟩]
  | .folder children =>
    ⟨place, .folder⟩ :: (Named.sorted (walkAll ignored place children)).flatMap Prod.snd
  | .closedFolder fault => [⟨place, .folder⟩, ⟨place, .fault fault⟩]

def walkAll (ignored : List String → Bool) (place : List String) :
    List (String × Entry) → Named (List Found)
  | [] => []
  | (name, e) :: r =>
    let inner := place ++ [name]
    (name, if ignored inner then [] else walk ignored inner e) :: walkAll ignored place r

end

end Entry

end AssetShell
