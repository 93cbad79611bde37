import AssetShell.Reference.KeyType
import AssetShell.Text.Blank

/-!
# Keys

A key is one typed hop on the way to what a reference points at. A key is also written as
`Type=value`, with the value starting behind the first equals sign.
-/

namespace AssetShell

inductive ReferenceKind
  | external
  | model
  deriving DecidableEq, Repr

namespace ReferenceKind

def all : List ReferenceKind := [.external, .model]

def name : ReferenceKind → String
  | .external => "ExternalReference"
  | .model => "ModelReference"

def shortName : ReferenceKind → String
  | .external => "external"
  | .model => "model"

end ReferenceKind

structure Key where
  type : KeyType
  value : String
  deriving DecidableEq, Repr

def Key.display (k : Key) : String := "(" ++ k.type.name ++ ")" ++ k.value

inductive NameFault
  | unknownKind (name : String)
  | unknownKeyType (name : String)
  | notAKey (text : String)
  deriving DecidableEq, Repr

def NameFault.message : NameFault → String
  | .unknownKind name => "unknown reference type '" ++ name ++ "'"
  | .unknownKeyType name => "unknown key type '" ++ name ++ "'"
  | .notAKey text => "expected <Type>=<value>, got '" ++ text ++ "'"

def ReferenceKind.ofName (name : String) : Except NameFault ReferenceKind :=
  match all.find? fun k => k.name = name ∨ k.shortName = name with
  | some k => .ok k
  | none => .error (.unknownKind name)

def KeyType.ofName (name : String) : Except NameFault KeyType :=
  match ofName? name with
  | some t => .ok t
  | none => .error (.unknownKeyType name)

/-- The type is read without white space at its ends, the value as it is. -/
def Key.ofText (text : String) : Except NameFault Key :=
  match text.toList.span (· ≠ '=') with
  | (_, []) => .error (.notAKey text)
  | (name, _ :: value) =>
    match KeyType.ofName (String.ofList (trimmed name)) with
    | .error fault => .error fault
    | .ok t => .ok ⟨t, String.ofList value⟩

end AssetShell
