import AssetShell.Interchange.Decoder

/-!
# Schemes of objects

A scheme says how an object becomes a record: its own fields, each with a name, other names for it
and a decoder, and blocks of fields that belong to a part of the record. Own fields are decoded in
the order in which they stand. The other entries are set aside; after the object has ended, missing
fields are reported and then the blocks are decoded from what was set aside. A scheme without blocks
ignores other entries, and also reads an array of its fields in their order.
-/

namespace AssetShell

variable {σ β ν : Type}

structure Field (σ : Type) where
  name : String
  aliases : List String
  mandatory : Bool
  decoder : Decoder (σ → σ)

namespace Field

def isNamed (f : Field σ) (name : String) : Bool := f.name = name || f.aliases.contains name

def required (name : String) (d : Decoder β) (set : σ → β → σ) : Field σ where
  name := name
  aliases := []
  mandatory := true
  decoder := d.map fun b s => set s b

/-- A field that keeps its blank value if it is not there. -/
def optional (name : String) (d : Decoder β) (set : σ → β → σ) : Field σ where
  name := name
  aliases := []
  mandatory := false
  decoder := d.map fun b s => set s b

def withAlias (f : Field σ) (other : String) : Field σ := { f with aliases := other :: f.aliases }

end Field

/-- Decodes a part of a record from entries that were set aside. -/
structure Block (σ : Type) where
  decode (entries : List (String × Json)) : Decoded (σ → σ)

structure Scheme (σ : Type) where
  blank : σ
  fields : List (Field σ)
  blocks : List (Block σ) := []

/-- What is known after some entries: the record so far, the names of the fields met, and the
entries set aside, last first. -/
structure Progress (σ : Type) where
  record : σ
  met : List String
  aside : List (String × Json)

namespace Scheme

def start (s : Scheme σ) : Progress σ := ⟨s.blank, [], []⟩

def field? (s : Scheme σ) (name : String) : Option (Field σ) := s.fields.find? (·.isNamed name)

/-- One entry of an object. `decode` reads the value for a field; `keep` turns the value of another
entry into what is set aside. -/
def entry (s : Scheme σ) (decode : Field σ → ν → Decoded (σ → σ)) (keep : ν → Decoded Json)
    (p : Progress σ) (name : String) (v : ν) : Decoded (Progress σ) :=
  match s.field? name with
  | some f =>
    if f.name ∈ p.met then .error (.duplicateField f.name)
    else (decode f v).map fun set => { p with record := set p.record, met := f.name :: p.met }
  | none => (keep v).map fun v => { p with aside := (name, v) :: p.aside }

def missing? (s : Scheme σ) (met : List String) : Option String :=
  (s.fields.find? fun f => f.mandatory && !met.contains f.name).map Field.name

def applyBlocks (blocks : List (Block σ)) (entries : List (String × Json)) (record : σ) :
    Decoded σ :=
  blocks.foldlM (fun record b => (b.decode entries).map (· record)) record

def finish (s : Scheme σ) (p : Progress σ) : Decoded σ :=
  match s.missing? p.met with
  | some name => .error (.missingField name)
  | none => applyBlocks s.blocks p.aside.reverse p.record

/-- An array of the fields in order. Fields at the end may be left out unless they are required. -/
def sequence (decode : Field σ → ν → Decoded (σ → σ)) : List (Field σ) → List ν → σ → Decoded σ
  | [], [], record => .ok record
  | [], _ :: _, _ => .error .malformed
  | f :: fs, [], record =>
    if f.mandatory then .error .malformed else sequence decode fs [] record
  | f :: fs, v :: vs, record =>
    (decode f v).bind fun set => sequence decode fs vs (set record)

/-- Entries of a text: an ignored one must keep to the form, one that is set aside must have a
value. -/
def keepText (s : Scheme σ) (levels : Nat) (v : Outline) : Decoded Json :=
  if s.blocks.isEmpty then
    if v.isWhole then .ok .null else .error .malformed
  else
    match v.value? levels with
    | some v => .ok v
    | none => .error .malformed

def textEntry (s : Scheme σ) (levels : Nat) (p : Progress σ) (m : Option String × Outline) :
    Decoded (Progress σ) :=
  match m.1 with
  | some name => s.entry (fun f v => f.decoder.text levels v) (s.keepText levels) p name m.2
  | none => .error .malformed

def valueEntry (s : Scheme σ) (held : Held) (p : Progress σ) (m : String × Json) :
    Decoded (Progress σ) :=
  s.entry (fun f v => f.decoder.value held v) .ok p m.1 m.2

def ofMembers (s : Scheme σ) (held : Held) (members : List (String × Json)) : Decoded σ :=
  (members.foldlM (s.valueEntry held) s.start).bind s.finish

def ofText (s : Scheme σ) (levels : Nat) : Outline → Decoded σ
  | .object members closed =>
    if levels = 0 then .error .malformed else
    (members.foldlM (s.textEntry (levels - 1)) s.start).bind fun p =>
      if closed then s.finish p else .error .malformed
  | .array items closed =>
    if levels = 0 ∨ s.blocks.isEmpty = false then .error .malformed else
    (sequence (fun f v => f.decoder.text (levels - 1) v) s.fields items s.blank).bind fun record =>
      if closed then .ok record else .error .malformed
  | _ => .error .malformed

def ofValue (s : Scheme σ) (held : Held) : Json → Decoded σ
  | .object members => s.ofMembers held members
  | .array items =>
    if s.blocks.isEmpty then sequence (fun f v => f.decoder.value held v) s.fields items s.blank
    else .error .malformed
  | _ => .error .malformed

def decoder (s : Scheme σ) : Decoder σ := ⟨s.ofText, s.ofValue⟩

/-- The record of a block. A block with blocks of its own shares the entries with them. -/
def block (s : Scheme β) (set : σ → β → σ) : Block σ where
  decode entries :=
    (s.ofMembers (if s.blocks.isEmpty then .kept else .lent) entries).map fun b r => set r b

end Scheme

/-! ## Members of an object -/

namespace Json

def optionalMember (name : String) (v : Option Json) : List (String × Json) :=
  match v with
  | none => []
  | some v => [(name, v)]

/-- An empty list is left out. -/
def listMember (name : String) (items : List Json) : List (String × Json) :=
  match items with
  | [] => []
  | items => [(name, .array items)]

end Json

end AssetShell
