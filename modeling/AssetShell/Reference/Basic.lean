import AssetShell.Reference.Chain

/-!
# References

A reference is a chain of keys without fault, so it has a first and a last key.
-/

namespace AssetShell

structure Reference where
  kind : ReferenceKind
  keys : List Key
  sound : Chain.fault? kind keys = none
  deriving DecidableEq, Repr

namespace Reference

def ofKeys (kind : ReferenceKind) (keys : List Key) : Except ChainFault Reference :=
  match h : Chain.fault? kind keys with
  | none => .ok ⟨kind, keys, h⟩
  | some fault => .error fault

theorem ofKeys_eq_ok_iff {kind : ReferenceKind} {keys : List Key} {r : Reference} :
    ofKeys kind keys = .ok r ↔ r.kind = kind ∧ r.keys = keys := by
  unfold ofKeys
  split
  · constructor
    · intro h
      cases h
      exact ⟨rfl, rfl⟩
    · rintro ⟨rfl, rfl⟩
      rfl
  · rename_i fault hf
    constructor
    · intro h
      cases h
    · rintro ⟨rfl, rfl⟩
      rw [r.sound] at hf
      cases hf

theorem ofKeys_eq_error_iff {kind : ReferenceKind} {keys : List Key} {fault : ChainFault} :
    ofKeys kind keys = .error fault ↔ Chain.fault? kind keys = some fault := by
  unfold ofKeys
  split <;> rename_i h <;> simp [h]

def global (value : String) : Reference := ⟨.external, [⟨.globalReference, value⟩], rfl⟩

theorem keys_ne_nil (r : Reference) : r.keys ≠ [] := Chain.ne_nil_of_fault r.sound

def firstKey (r : Reference) : Key := r.keys.head r.keys_ne_nil

def lastKey (r : Reference) : Key := r.keys.getLast r.keys_ne_nil

def isModel (r : Reference) : Bool := r.kind = .model

/-- Whether the reference starts in the model at an identifiable of this type. -/
def isModelTo (r : Reference) (type : KeyType) : Bool := r.isModel && r.firstKey.type = type

def displayChain (kind : ReferenceKind) (keys : List Key) : String :=
  kind.name ++ "[" ++ ", ".intercalate (keys.map Key.display) ++ "]"

def display (r : Reference) : String := displayChain r.kind r.keys

end Reference

end AssetShell
