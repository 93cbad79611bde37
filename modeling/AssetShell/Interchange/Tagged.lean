import AssetShell.Interchange.Scheme

/-!
# Tagged objects

An object whose member `modelType` names what it is. The tag may stand anywhere; the other entries
are set aside until the object has ended. An array has its tag in front, but what is set aside from
an array is never an object.
-/

namespace AssetShell

namespace Tagged

variable {τ : Type}

def tagName : String := "modelType"

/-- The tag met so far, and the entries set aside, last first. -/
structure Progress (τ : Type) where
  tag : Option τ
  aside : List (String × Json)

/-- One entry. `decode` reads a tag, `keep` turns another value into what is set aside. -/
def entry {ν : Type} (decode : ν → Decoded τ) (keep : ν → Decoded Json) (p : Progress τ)
    (name : String) (v : ν) : Decoded (Progress τ) :=
  if name = tagName then
    if p.tag.isSome then .error (.duplicateField tagName)
    else (decode v).map fun tag => { p with tag := some tag }
  else (keep v).map fun v => { p with aside := (name, v) :: p.aside }

def finish (p : Progress τ) : Decoded (τ × List (String × Json)) :=
  match p.tag with
  | none => .error (.missingField tagName)
  | some tag => .ok (tag, p.aside.reverse)

def tagOfText (name : τ → String) (all : List τ) : Outline → Decoded τ
  | .string (some s) => Decoder.pick name all s
  | _ => .error .malformed

/-- A tag that was set aside may also be given by its place among all tags. -/
def tagOfValue (name : τ → String) (all : List τ) (held : Held) : Json → Decoded τ
  | .string s => Decoder.pick name all s
  | .number (.integer v) =>
    if held = .parsed ∨ v < 0 then .error .malformed else
    match all[v.toNat]? with
    | some tag => .ok tag
    | none => .error .malformed
  | _ => .error .malformed

def keepText (levels : Nat) (v : Outline) : Decoded Json :=
  match v.value? levels with
  | some v => .ok v
  | none => .error .malformed

def textEntry (name : τ → String) (all : List τ) (levels : Nat) (p : Progress τ)
    (m : Option String × Outline) : Decoded (Progress τ) :=
  match m.1 with
  | some entryName => entry (tagOfText name all) (keepText levels) p entryName m.2
  | none => .error .malformed

def valueEntry (name : τ → String) (all : List τ) (held : Held) (p : Progress τ)
    (m : String × Json) : Decoded (Progress τ) :=
  entry (tagOfValue name all held) .ok p m.1 m.2

/-- An array of a tag and more: the tag is read, the rest fits no record. -/
def ofSequence {ν : Type} (decode : ν → Decoded τ) (items : List ν) (closed : Bool) :
    Decoded (τ × List (String × Json)) :=
  match items with
  | [] => .error (if closed then .missingField tagName else .malformed)
  | v :: _ => (decode v).bind fun _ => .error .malformed

/-- The tag of an object and its other entries. -/
def split (name : τ → String) (all : List τ) : Decoder (τ × List (String × Json)) where
  text levels v :=
    match v with
    | .object members closed =>
      if levels = 0 then .error .malformed else
      (members.foldlM (textEntry name all (levels - 1)) ⟨none, []⟩).bind fun p =>
        if closed then finish p else .error .malformed
    | .array items closed =>
      if levels = 0 then .error .malformed
      else ofSequence (tagOfText name all) items closed
    | _ => .error .malformed
  value held v :=
    match v with
    | .object members =>
      (members.foldlM (valueEntry name all held) ⟨none, []⟩).bind finish
    | .array items => ofSequence (tagOfValue name all held) items true
    | _ => .error .malformed

end Tagged

end AssetShell
