import AssetShell.Proofs.Interchange.Codec
import AssetShell.Proofs.Interchange.Pattern
import AssetShell.Proofs.Json.OutlineValue

/-!
# Simulations

A relation between values, one for each pattern, is a simulation if related values answer everything
that is asked by the pattern in the same way. So is a relation between outlines, where values that
are set aside must have a value on both sides. Each simulation of outlines gives one of values: that
of the values of related outlines.
-/

namespace AssetShell

/-! ## Answers -/

/-- A tag that was set aside gives a name, or a place among the variants. -/
inductive TagSays (variants : List (String × RecordKind)) : Json → RecordKind → Prop
  | name {name : String} {k : RecordKind} (h : variants.lookup name = some k) :
    TagSays variants (.string name) k
  | place {i : Nat} {name : String} {k : RecordKind} (h : variants[i]? = some (name, k)) :
    TagSays variants (.number (.integer i)) k

theorem TagSays.unique {variants : List (String × RecordKind)} {v : Json} {k k' : RecordKind}
    (h : TagSays variants v k) (h' : TagSays variants v k') : k = k' := by
  cases h with
  | name h =>
    cases h' with
    | name h' => exact Option.some.inj (h.symm.trans h')
  | @place i name k h =>
    generalize hv : Json.number (.integer i) = v at h'
    cases h' with
    | name => cases hv
    | place h' =>
      obtain rfl := Int.ofNat.inj (Json.Number.integer.inj (Json.number.inj hv))
      exact (Prod.mk.inj (Option.some.inj (h.symm.trans h'))).2

section Answers

variable {ν : Type} (view : ν → Option Json) (R : Pattern → ν → ν → Prop)

/-- The slots that an object is asked for, where `tags` are the values of its tags. -/
inductive Pattern.Asks (tags : List ν) : Pattern → List Slot → Prop
  | record (k : RecordKind) : Asks tags (.record k) k.slots
  | tagged {variants : List (String × RecordKind)} {t : ν} {v : Json} {k : RecordKind}
    (hTag : tags = [t]) (hView : view t = some v) (hSays : TagSays variants v k) :
    Asks tags (.tagged variants) (.tag :: k.slots)

/-- What becomes of the values under the names of a slot. Where there are several of them, the
object is not decoded. -/
inductive Carried (p : Pattern) : List ν → List ν → Prop
  | absent : Carried p [] []
  | single {v w : ν} (h : R p v w) : Carried p [v] [w]
  | nullAdded {w : ν} (hp : p.isNullable = true) (hw : view w = some .null) : Carried p [] [w]
  | nullRemoved {v : ν} (hp : p.isNullable = true) (hv : view v = some .null) : Carried p [v] []
  | several {v w : ν} {vs ws : List ν} : Carried p (v :: w :: vs) ws

/-- What becomes of the items of an array that gives the slots in their order. -/
inductive Positions : List Slot → List ν → List ν → Prop
  | done (slots : List Slot) : Positions slots [] []
  | next {s : Slot} {slots : List Slot} {v w : ν} {vs ws : List ν} (h : R s.pattern v w)
    (hRest : Positions slots vs ws) : Positions (s :: slots) (v :: vs) (w :: ws)
  | surplus {v : ν} {vs ws : List ν} : Positions [] (v :: vs) ws

variable {view R}

theorem Pattern.Asks.unique {tags : List ν} {p : Pattern} {slots slots' : List Slot}
    (h : p.Asks view tags slots) (h' : p.Asks view tags slots') : slots = slots' := by
  cases h with
  | record => cases h'; rfl
  | tagged hTag hView hSays =>
    cases h' with
    | tagged hTag' hView' hSays' =>
      obtain ⟨rfl, -⟩ := List.cons.inj (hTag.symm.trans hTag')
      obtain rfl := Option.some.inj (hView.symm.trans hView')
      rw [hSays.unique hSays']

end Answers

/-- The values under some names, in their order. -/
def valuesUnder {ν : Type} (names : List String) (ms : List (String × ν)) : List ν :=
  (ms.filter fun m => m.1 ∈ names).map Prod.snd

/-! ## Simulations of values -/

namespace Json

/-- A value that is taken as it stands: what holds nothing, or an object of one name and such a
value. -/
inductive Plain : Json → Prop
  | leaf {v : Json} (h : v.parts = []) : Plain v
  | word {name : String} {v : Json} (h : v.parts = []) : Plain (.object [(name, v)])

structure Simulation (R : Pattern → Json → Json → Prop) : Prop where
  plain : ∀ v w, R .plain v w → v.Plain → w = v
  datatype : ∀ tag d w, R .datatype (.string tag) w → Datatype.ofTag? tag = some d →
    ∃ other, w = .string other ∧ Datatype.ofTag? other = some d
  null : ∀ p w, R (.nullable p) .null w → w = .null
  present : ∀ p v w, R (.nullable p) v w → v ≠ .null → w ≠ .null ∧ R p v w
  list : ∀ p vs w, R (.list p) (.array vs) w → ∃ ws, w = .array ws ∧ List.Forall₂ (R p) vs ws
  object : ∀ p ms w slots, R p (.object ms) w →
    p.Asks some (valuesUnder [Tagged.tagName] ms) slots → ∃ ns, w = .object ns ∧
      ∀ s ∈ slots, Carried some R s.pattern (valuesUnder s.names ms) (valuesUnder s.names ns)
  positions : ∀ k vs w, R (.record k) (.array vs) w →
    ∃ ws, w = .array ws ∧ Positions R k.slots vs ws

end Json

/-! ## Simulations of outlines -/

namespace Outline

def under (names : List String) (ms : List (Option String × Outline)) : List Outline :=
  (ms.filter fun m => m.1.any (· ∈ names)).map Prod.snd

/-- A member that stands for another: under the same slots, and fit for all that the other was. -/
structure StandsFor (slots : List Slot) (levels : Nat) (n m : Option String × Outline) : Prop where
  named : m.1.isSome = true → n.1.isSome = true
  slots : ∀ s ∈ slots, n.1.any (· ∈ s.names) = m.1.any (· ∈ s.names)
  whole : m.2.isWhole = true → n.2.isWhole = true
  valued : (m.2.value? levels).isSome = true → (n.2.value? levels).isSome = true

/-- Every member has a value, or stands for one that was there before. -/
def Kept (slots : List Slot) (levels : Nat) (ms ns : List (Option String × Outline)) : Prop :=
  ∀ n ∈ ns, (n.1.isSome = true ∧ (n.2.value? levels).isSome = true) ∨
    ∃ m ∈ ms, StandsFor slots levels n m

structure Simulation (R : Pattern → Nat → Outline → Outline → Prop) : Prop where
  plain : ∀ n o o', R .plain n o o' → o' = o
  datatype : ∀ n tag d o, R .datatype n (.string (some tag)) o → Datatype.ofTag? tag = some d →
    ∃ other, o = .string (some other) ∧ Datatype.ofTag? other = some d
  null : ∀ p n o, R (.nullable p) n .null o → o = .null
  present : ∀ p n o o', R (.nullable p) n o o' → o ≠ .null → o' ≠ .null ∧ R p n o o'
  list : ∀ p n os closed o, R (.list p) n (.array os closed) o →
    ∃ os', o = .array os' closed ∧ List.Forall₂ (R p (n - 1)) os os'
  object : ∀ p n ms closed o slots, R p n (.object ms closed) o →
    p.Asks (value? (n - 1)) (under [Tagged.tagName] ms) slots →
    ∃ ns, o = .object ns closed ∧ Kept slots (n - 1) ms ns ∧
      ∀ s ∈ slots, Carried (value? (n - 1)) (fun p => R p (n - 1)) s.pattern
        (under s.names ms) (under s.names ns)
  positions : ∀ k n os closed o, R (.record k) n (.array os closed) o →
    ∃ os', o = .array os' closed ∧ Positions (fun p => R p (n - 1)) k.slots os os'

/-! ## The simulation of the values -/

/-- The values of related outlines. -/
def OnValues (R : Pattern → Nat → Outline → Outline → Prop) (p : Pattern) (v w : Json) : Prop :=
  ∃ n o o', R p n o o' ∧ o.value? n = some v ∧ o'.value? n = some w

section OnValues

variable {R : Pattern → Nat → Outline → Outline → Prop} {p : Pattern} {n : Nat}
  {os os' : List Outline} {vs ws : List Json} {slots : List Slot}

theorem under_of_hasMember {ms : List (Option String × Outline)} {es : List (String × Json)}
    (h : List.Forall₂ (HasMember n) ms es) (names : List String) :
    List.Forall₂ (fun o v => o.value? n = some v) (under names ms) (valuesUnder names es) := by
  induction h with
  | nil => exact .nil
  | @cons m e ms es hm _ ih =>
    obtain ⟨name, o⟩ := m
    obtain ⟨rfl, hValue⟩ := hm
    by_cases hAsked : e.1 ∈ names
    · simpa [under, valuesUnder, hAsked] using And.intro hValue ih
    · simpa [under, valuesUnder, hAsked] using ih

theorem asks_of_values (hTags : List.Forall₂ (fun o v => o.value? n = some v) os vs)
    (h : p.Asks some vs slots) : p.Asks (value? n) os slots := by
  cases h with
  | record k => exact .record k
  | tagged hTag hView hSays =>
    cases hTag
    obtain ⟨t, r, ht, hRest, rfl⟩ := List.forall₂_cons_right_iff.mp hTags
    obtain rfl := List.forall₂_nil_right_iff.mp hRest
    exact .tagged rfl (ht.trans hView) hSays

theorem carried_values (h : Carried (value? n) (fun p => R p n) p os os')
    (hLeft : List.Forall₂ (fun o v => o.value? n = some v) os vs)
    (hRight : List.Forall₂ (fun o v => o.value? n = some v) os' ws) :
    Carried some (OnValues R) p vs ws := by
  cases h with
  | absent =>
    cases hLeft
    cases hRight
    exact .absent
  | single h =>
    obtain _ | ⟨hv, _ | _⟩ := hLeft
    obtain _ | ⟨hw, _ | _⟩ := hRight
    exact .single ⟨n, _, _, h, hv, hw⟩
  | nullAdded hp hNull =>
    cases hLeft
    obtain _ | ⟨hw, _ | _⟩ := hRight
    exact .nullAdded hp (hw.symm.trans hNull)
  | nullRemoved hp hNull =>
    obtain _ | ⟨hv, _ | _⟩ := hLeft
    cases hRight
    exact .nullRemoved hp (hv.symm.trans hNull)
  | several =>
    obtain _ | ⟨_, _ | _⟩ := hLeft
    exact .several

theorem positions_values (h : Positions (fun p => R p n) slots os os')
    (hLeft : List.Forall₂ (fun o v => o.value? n = some v) os vs)
    (hRight : List.Forall₂ (fun o v => o.value? n = some v) os' ws) :
    Positions (OnValues R) slots vs ws := by
  induction h generalizing vs ws with
  | done =>
    cases hLeft
    cases hRight
    exact .done _
  | next h _ ih =>
    obtain _ | ⟨hv, hLeft⟩ := hLeft
    obtain _ | ⟨hw, hRight⟩ := hRight
    exact .next ⟨n, _, _, h, hv, hw⟩ (ih hLeft hRight)
  | surplus =>
    cases hLeft
    exact .surplus

theorem items_values (h : List.Forall₂ (R p n) os os')
    (hLeft : List.Forall₂ (fun o v => o.value? n = some v) os vs)
    (hRight : List.Forall₂ (fun o v => o.value? n = some v) os' ws) :
    List.Forall₂ (OnValues R p) vs ws := by
  induction h generalizing vs ws with
  | nil =>
    cases hLeft
    cases hRight
    exact .nil
  | cons h _ ih =>
    obtain _ | ⟨hv, hLeft⟩ := hLeft
    obtain _ | ⟨hw, hRight⟩ := hRight
    exact .cons ⟨n, _, _, h, hv, hw⟩ (ih hLeft hRight)

theorem Simulation.onValues (hR : Simulation R) : Json.Simulation (OnValues R) where
  plain := by
    rintro v w ⟨n, o, o', h, hv, hw⟩ -
    rw [hR.plain n o o' h] at hw
    exact Option.some.inj (hw.symm.trans hv)
  datatype := by
    rintro tag d w ⟨n, o, o', h, hv, hw⟩ hTag
    obtain rfl := eq_string_of_value? hv
    obtain ⟨other, rfl, hOther⟩ := hR.datatype n tag d o' h hTag
    exact ⟨other, (Option.some.inj hw).symm, hOther⟩
  null := by
    rintro p w ⟨n, o, o', h, hv, hw⟩
    obtain rfl := eq_null_of_value? hv
    obtain rfl := hR.null p n o' h
    exact (Option.some.inj hw).symm
  present := by
    rintro p v w ⟨n, o, o', h, hv, hw⟩ hPresent
    have hLeft : o ≠ .null := by
      rintro rfl
      exact hPresent (Option.some.inj hv).symm
    obtain ⟨hRight, hSame⟩ := hR.present p n o o' h hLeft
    refine ⟨?_, n, o, o', hSame, hv, hw⟩
    rintro rfl
    exact hRight (eq_null_of_value? hw)
  list := by
    rintro p vs w ⟨n, o, o', h, hv, hw⟩
    obtain ⟨os, rfl, -, hItems⟩ := eq_array_of_value? hv
    obtain ⟨os', rfl, hRelated⟩ := hR.list p n os true o' h
    obtain ⟨-, -, ws, rfl, hItems'⟩ := value?_array.mp hw
    exact ⟨ws, rfl, items_values hRelated hItems hItems'⟩
  object := by
    rintro p es w slots ⟨n, o, o', h, hv, hw⟩ hAsks
    obtain ⟨ms, rfl, -, hMembers⟩ := eq_object_of_value? hv
    have hTags := under_of_hasMember hMembers [Tagged.tagName]
    obtain ⟨ns, rfl, -, hCarried⟩ := hR.object p n ms true o' slots h (asks_of_values hTags hAsks)
    obtain ⟨-, -, fs, rfl, hMembers'⟩ := value?_object.mp hw
    refine ⟨fs, rfl, fun s hs => ?_⟩
    exact carried_values (hCarried s hs) (under_of_hasMember hMembers s.names)
      (under_of_hasMember hMembers' s.names)
  positions := by
    rintro k vs w ⟨n, o, o', h, hv, hw⟩
    obtain ⟨os, rfl, -, hItems⟩ := eq_array_of_value? hv
    obtain ⟨os', rfl, hPositions⟩ := hR.positions k n os true o' h
    obtain ⟨-, -, ws, rfl, hItems'⟩ := value?_array.mp hw
    exact ⟨ws, rfl, positions_values hPositions hItems hItems'⟩

end OnValues

end Outline

end AssetShell
