import AssetShell.Interchange.Scheme
import AssetShell.Reference.Basic

/-!
# References as objects

A reference is an object with its kind and its keys. The chain is checked after the object has been
read; keys that are not there count as none.
-/

namespace AssetShell

def ReferenceKind.decoder : Decoder ReferenceKind := .named name all

def KeyType.decoder : Decoder KeyType := .named name all

def Key.scheme : Scheme Key where
  blank := ⟨.globalReference, ""⟩
  fields := [
    .required "type" KeyType.decoder fun k t => { k with type := t },
    .required "value" .string fun k v => { k with value := v }]

def Key.toJson (k : Key) : Json :=
  .object [("type", .string k.type.name), ("value", .string k.value)]

namespace Reference

/-- Kind and keys before the chain is checked. -/
structure Draft where
  kind : ReferenceKind
  keys : List Key

def Draft.scheme : Scheme Draft where
  blank := ⟨.external, []⟩
  fields := [
    .required "type" ReferenceKind.decoder fun d k => { d with kind := k },
    .optional "keys" Key.scheme.decoder.list fun d ks => { d with keys := ks }]

def Draft.check (d : Draft) : Decoded Reference :=
  match ofKeys d.kind d.keys with
  | .ok r => .ok r
  | .error fault => .error (.chain fault)

def decoder : Decoder Reference := Draft.scheme.decoder.refine Draft.check

def toJson (r : Reference) : Json :=
  .object [("type", .string r.kind.name), ("keys", .array (r.keys.map Key.toJson))]

end Reference

end AssetShell
