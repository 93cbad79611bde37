import AssetShell.Interchange.Export
import AssetShell.Json.Printer
import AssetShell.Model.Validation

/-!
# Documents

A document holds one identifiable, or an array of them. All of them are decoded before any is
checked. A single entity is also read from a text of its own.
-/

namespace AssetShell

inductive Fault
  | decode (fault : DecodeFault)
  | violation (fault : Violation)
  deriving DecidableEq, Repr

namespace Fault

def rule : Fault → String
  | .decode _ => "parse-error"
  | .violation v => v.rule

/-- The message, unless it is in the words of the JSON library. -/
def message? : Fault → Option String
  | .decode f => f.explanation?.map ("JSON error: " ++ ·)
  | .violation v => some v.message

/-- The message, given what the JSON library says of the text. -/
def message (wording : String) (f : Fault) : String :=
  f.message?.getD ("JSON error: " ++ wording)

def ofDecoded {α : Type} : Decoded α → Except Fault α
  | .ok a => .ok a
  | .error f => .error (.decode f)

def ofChecked {α : Type} : Except Violation α → Except Fault α
  | .ok a => .ok a
  | .error v => .error (.violation v)

end Fault

/-- Decodes an entity from a text of its own and checks it. -/
def readEntity {α : Type} (d : Decoder α) (check : α → Checked) (s : String) : Except Fault α := do
  let a ← Fault.ofDecoded (d.ofText s)
  Fault.ofChecked (check a)
  return a

namespace Document

def decodeValue : Json → Decoded (List Identifiable)
  | .array items => items.mapM (Identifiable.decoder.value .parsed)
  | v => (Identifiable.decoder.value .parsed v).map fun i => [i]

def decode (s : String) : Decoded (List Identifiable) :=
  match Json.ofText? s with
  | none => .error .malformed
  | some v => decodeValue v

def read (s : String) : Except Fault (List Identifiable) := do
  let entities ← Fault.ofDecoded (decode s)
  Fault.ofChecked (checkAll Identifiable.check entities)
  return entities

def exports (typed : Bool) (entities : List Identifiable) : List Json :=
  entities.map (Identifiable.exported typed)

/-- One export stands by itself, several stand in an array. -/
def assemble : List Json → Json
  | [v] => v
  | vs => .array vs

end Document

inductive OutputFormat
  | pretty
  | compact
  deriving DecidableEq, Repr

namespace OutputFormat

def all : List OutputFormat := [.pretty, .compact]

def name : OutputFormat → String
  | .pretty => "pretty"
  | .compact => "compact"

def decoder : Decoder OutputFormat := .named name all

def render : OutputFormat → Json → String
  | .pretty, v => v.prettyText
  | .compact, v => v.compactText

end OutputFormat

end AssetShell
