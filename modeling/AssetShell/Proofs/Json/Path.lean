import AssetShell.Interchange.Scheme
import AssetShell.Proofs.Json.Canonical

/-!
# Places in a value

A path leads from a value to a place in it, through the items of arrays and the members of objects.
The shape of a value is what can be seen of it without looking into what it holds. Two values whose
shapes agree along all paths are the same up to members that stand behind others of their name.
-/

namespace AssetShell

namespace Json

inductive Step
  | item (index : Nat)
  | member (name : String)
  deriving DecidableEq, Repr

abbrev Path := List Step

def child? : Json → Step → Option Json
  | .array items, .item i => items[i]?
  | .object ms, .member name => (Json.object ms).member? name
  | _, _ => none

def at? : Path → Json → Option Json
  | [], v => some v
  | step :: path, v => (v.child? step).bind (at? path)

inductive Shape
  | leaf (v : Json)
  | array (length : Nat)
  | object (names : List String)

def shape : Json → Shape
  | .array items => .array items.length
  | .object ms => .object (names ms)
  | v => .leaf v

/-- Neither an array nor an object. -/
def isLeaf : Json → Bool
  | .array _ => false
  | .object _ => false
  | _ => true

variable {v : Json} {path : Path} {name : String} {ms ns : List (String × Json)}

@[simp] theorem at?_nil : at? [] v = some v := rfl

@[simp] theorem at?_item (items : List Json) (i : Nat) :
    at? (.item i :: path) (.array items) = items[i]?.bind (at? path) := rfl

@[simp] theorem at?_member (ms : List (String × Json)) :
    at? (.member name :: path) (.object ms) = ((object ms).member? name).bind (at? path) := rfl

@[simp] theorem at?_member_array (items : List Json) :
    at? (.member name :: path) (.array items) = none := rfl

@[simp] theorem at?_item_object (ms : List (String × Json)) (i : Nat) :
    at? (.item i :: path) (.object ms) = none := rfl

theorem at?_cons_of_isLeaf (h : v.isLeaf) (step : Step) (path : Path) :
    at? (step :: path) v = none := by
  cases v with
  | array items => cases h
  | object ms => cases h
  | _ => rfl

theorem member?_append (ms ns : List (String × Json)) (name : String) :
    (object (ms ++ ns)).member? name = ((object ns).member? name).or ((object ms).member? name) := by
  simp only [member?, List.reverse_append, List.find?_append, Option.map_or]

theorem member?_singleton (v : Json) (other : String) :
    (object [(name, v)]).member? other = if name = other then some v else none := by
  by_cases h : name = other
  · simp [member?, h]
  · simp [member?, h]

theorem member?_optionalMember (v : Option Json) (other : String) :
    (object (optionalMember name v)).member? other = if name = other then v else none := by
  cases v with
  | none => simp [optionalMember, member?]
  | some v => exact member?_singleton v other

end Json

end AssetShell
