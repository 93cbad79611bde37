import AssetShell.Reference.Key

/-!
# Chains of keys

The grammar of references. The rules are asked in a fixed order: there is a key; the first key fits
the kind; in a model reference every later key is a fragment key, the last fragment reference ends
the chain behind a file or a blob, and an index follows a list; an external reference of several
keys ends in a global or a fragment reference. The first broken rule is the fault of the chain.
-/

namespace AssetShell

inductive ChainFault
  | empty
  | first (kind : ReferenceKind) (found : KeyType)
  | notAFragment (index : Nat) (found : KeyType)
  | fragmentNotLast (index : Nat)
  | fragmentHolder (found : KeyType)
  | listIndex (index : Nat) (value : String)
  | externalEnd (found : KeyType)
  deriving DecidableEq, Repr

def ReferenceKind.roots : ReferenceKind → List KeyType
  | .external => KeyType.externalRoots
  | .model => KeyType.modelRoots

namespace ChainFault

def rule : ChainFault → String
  | .empty => "empty-chain"
  | .first .. => "first-key-kind-mismatch"
  | .notAFragment .. => "non-fragment-key-in-tail"
  | .fragmentNotLast _ => "fragment-reference-not-last"
  | .fragmentHolder _ => "fragment-reference-requires-file-or-blob"
  | .listIndex .. => "list-index-not-integer"
  | .externalEnd _ => "external-reference-bad-terminal"

def explanation : ChainFault → String
  | .empty => "a reference must contain at least one key"
  | .first kind found =>
    "the first key of a " ++ kind.name ++ " must be one of "
      ++ ", ".intercalate (kind.roots.map KeyType.name) ++ ", found " ++ found.name
  | .notAFragment index found =>
    s!"key {index} of a ModelReference must be a fragment key, found {found.name}"
  | .fragmentNotLast index => s!"FragmentReference at key {index} must be the last key"
  | .fragmentHolder found =>
    "FragmentReference must follow a File or Blob key, found " ++ found.name
  | .listIndex index value =>
    s!"key {index} follows a SubmodelElementList and must be a non-negative integer, found '"
      ++ value ++ "'"
  | .externalEnd found =>
    "the last key of an ExternalReference must be GlobalReference or FragmentReference, found "
      ++ found.name

def message (f : ChainFault) : String := f.rule ++ ": " ++ f.explanation

end ChainFault

namespace Chain

/-- The digits of an index carry no sign. -/
def isListIndex (value : String) : Bool := !value.toList.isEmpty && value.toList.all Char.isDigit

/-- The first key that is no fragment key; `index` is the place of the first of `keys`. -/
def foreignKey? (index : Nat) : List Key → Option ChainFault
  | [] => none
  | k :: r =>
    if k.type ∈ KeyType.fragments then foreignKey? (index + 1) r
    else some (.notAFragment index k.type)

/-- The place of the last fragment reference; `index` is the place of the first of `keys`. -/
def lastFragment? (index : Nat) : List Key → Option Nat
  | [] => none
  | k :: r =>
    match lastFragment? (index + 1) r with
    | some i => some i
    | none => if k.type = .fragmentReference then some index else none

/-- Fragment references before the last one count as plain fragment keys. -/
def fragmentFault? (keys : List Key) : Option ChainFault :=
  match lastFragment? 0 keys with
  | none => none
  | some index =>
    if index + 1 ≠ keys.length then some (.fragmentNotLast index) else
    match keys.dropLast.getLast? with
    | none => none
    | some holder =>
      if holder.type ∈ KeyType.fragmentHolders then none else some (.fragmentHolder holder.type)

/-- The first key behind a list that is no index; `index` is the place of the first of `keys`. -/
def indexFault? (index : Nat) : List Key → Option ChainFault
  | list :: k :: r =>
    if list.type = .submodelElementList ∧ isListIndex k.value = false then
      some (.listIndex (index + 1) k.value)
    else indexFault? (index + 1) (k :: r)
  | _ => none

def modelFault? (keys : List Key) : Option ChainFault :=
  (foreignKey? 1 keys.tail).or ((fragmentFault? keys).or (indexFault? 0 keys))

def externalFault? (last : Key) : Option ChainFault :=
  if last.type ∈ KeyType.externalEnds then none else some (.externalEnd last.type)

def fault? (kind : ReferenceKind) (keys : List Key) : Option ChainFault :=
  match keys with
  | [] => some .empty
  | k :: r =>
    if k.type ∉ kind.roots then some (.first kind k.type) else
    match r.getLast? with
    | none => none
    | some last =>
      match kind with
      | .model => modelFault? (k :: r)
      | .external => externalFault? last

theorem ne_nil_of_fault {kind : ReferenceKind} {keys : List Key} (h : fault? kind keys = none) :
    keys ≠ [] := by
  rintro rfl
  cases h

end Chain

end AssetShell
