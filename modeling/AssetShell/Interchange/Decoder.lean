import AssetShell.Interchange.Fault
import AssetShell.Json.Outline

/-!
# Decoders

A decoder reads a thing of one type from the outline of a text or from a value. From a text it
proceeds in the order of the text and reports the first fault; `levels` is the number of groups
that may still nest. From a value it depends on how the value is held only where a name is wanted.
-/

namespace AssetShell

/-- A value comes straight from a parsed text, or from the entries of an object that were set aside:
then it is kept for one reader or lent to several. -/
inductive Held
  | parsed
  | kept
  | lent
  deriving DecidableEq, Repr

structure Decoder (α : Type) where
  text (levels : Nat) (v : Outline) : Decoded α
  value (held : Held) (v : Json) : Decoded α

namespace Decoder

variable {α β : Type}

def string : Decoder String where
  text _ v :=
    match v with
    | .string (some s) => .ok s
    | _ => .error .malformed
  value _ v :=
    match v with
    | .string s => .ok s
    | _ => .error .malformed

def bool : Decoder Bool where
  text _ v :=
    match v with
    | .bool b => .ok b
    | _ => .error .malformed
  value _ v :=
    match v with
    | .bool b => .ok b
    | _ => .error .malformed

def refine (d : Decoder α) (f : α → Decoded β) : Decoder β where
  text levels v := (d.text levels v).bind f
  value held v := (d.value held v).bind f

def map (f : α → β) (d : Decoder α) : Decoder β := d.refine fun a => .ok (f a)

/-- Null stands for nothing. -/
def optional (d : Decoder α) : Decoder (Option α) where
  text levels v :=
    match v with
    | .null => .ok none
    | v => (d.text levels v).map some
  value held v :=
    match v with
    | .null => .ok none
    | v => (d.value held v).map some

def list (d : Decoder α) : Decoder (List α) where
  text levels v :=
    match v with
    | .array items closed =>
      if levels = 0 then .error .malformed else
      (items.mapM (d.text (levels - 1))).bind fun as =>
        if closed then .ok as else .error .malformed
    | _ => .error .malformed
  value held v :=
    match v with
    | .array items => items.mapM (d.value held)
    | _ => .error .malformed

def datatype : Decoder Datatype :=
  string.refine fun tag =>
    match Datatype.ofTag? tag with
    | some d => .ok d
    | none => .error (.unknownDatatype tag)

def pick (name : α → String) (all : List α) (found : String) : Decoded α :=
  match all.find? fun a => name a = found with
  | some a => .ok a
  | none => .error (.unknownName found (all.map name))

def isEmptyObject : Json → Bool
  | .object [] => true
  | _ => false

def isNull : Json → Bool
  | .null => true
  | _ => false

/-- A name is a string, or an object with the name as its one member and null as the value. A kept
value may have the empty object in place of null. -/
def named (name : α → String) (all : List α) : Decoder α where
  text levels v :=
    match v with
    | .string (some s) => pick name all s
    | .object ((some s, v) :: r) closed =>
      if levels = 0 then .error .malformed else
      (pick name all s).bind fun a =>
        match v, r with
        | .null, [] => if closed then .ok a else .error .malformed
        | _, _ => .error .malformed
    | _ => .error .malformed
  value held v :=
    match v with
    | .string s => pick name all s
    | .object [(s, v)] =>
      (pick name all s).bind fun a =>
        if isNull v || (held = .kept && isEmptyObject v) then .ok a else .error .malformed
    | _ => .error .malformed

def ofText (d : Decoder α) (s : String) : Decoded α :=
  let (outline, alone) := Outline.ofText s
  (d.text Json.maxLevels outline).bind fun a => if alone then .ok a else .error .malformed

end Decoder

end AssetShell
