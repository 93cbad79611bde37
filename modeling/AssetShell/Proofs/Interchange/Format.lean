import AssetShell.Proofs.Interchange.Codec
import Mathlib.Data.List.Induction

/-!
# Formats of records

A format says what the fields and blocks of a scheme have to do with the parts of a record: each
field and each block owns one part, and the names they look at are all different. Then the order of
the entries does not matter. An object is read as a record if and only if every part of the record
is what the entries under its names say.
-/

namespace AssetShell

/-! ## Readers -/

/-- How the values under the names of an object are decoded or set aside. -/
structure Reader (ν : Type) where
  read : {β : Type} → Decoder β → ν → Decoded β
  keep : ν → Decoded Json
  read_map : ∀ {β γ : Type} (d : Decoder β) (f : β → γ) (v : ν), read (d.map f) v = (read d v).map f

namespace Reader

def value (held : Held) : Reader Json where
  read d v := d.value held v
  keep := .ok
  read_map d f v := by
    simp only [Decoder.map, Decoder.refine]
    cases d.value held v <;> rfl

def text {σ : Type} (s : Scheme σ) (levels : Nat) : Reader Outline where
  read d v := d.text levels v
  keep := s.keepText levels
  read_map d f v := by
    simp only [Decoder.map, Decoder.refine]
    cases d.text levels v <;> rfl

end Reader

/-! ## Components and parts -/

/-- A field together with the component of the record that it fills. -/
structure Component (σ : Type) where
  Content : Type
  name : String
  aliases : List String
  mandatory : Bool
  decoder : Decoder Content
  get : σ → Content
  set : σ → Content → σ
  write : Content → Option Json
  references : Content → List Reference

namespace Component

variable {σ β : Type}

def field (c : Component σ) : Field σ where
  name := c.name
  aliases := c.aliases
  mandatory := c.mandatory
  decoder := c.decoder.map fun b s => c.set s b

def names (c : Component σ) : List String := c.name :: c.aliases

def isNamed (c : Component σ) (name : String) : Bool := c.field.isNamed name

theorem isNamed_iff {c : Component σ} {name : String} : c.isNamed name = true ↔ name ∈ c.names := by
  rw [isNamed, Field.isNamed, Bool.or_eq_true, decide_eq_true_eq, List.contains_iff_mem, names,
    List.mem_cons]
  exact or_congr_left eq_comm

/-- The member that the component is written as. -/
def member (c : Component σ) (s : σ) : List (String × Json) :=
  Json.optionalMember c.name (c.write (c.get s))

def required (name : String) (c : Codec β) (get : σ → β) (set : σ → β → σ) : Component σ :=
  ⟨β, name, [], true, c.decoder, get, set, fun b => some (c.write b), c.references⟩

/-- A component that is always written but need not be there. -/
def defaulted (name : String) (c : Codec β) (get : σ → β) (set : σ → β → σ) : Component σ :=
  { required name c get set with mandatory := false }

def optional (name : String) (c : Codec β) (get : σ → Option β) (set : σ → Option β → σ) :
    Component σ :=
  ⟨Option β, name, [], false, c.decoder.optional, get, set, Option.map c.write,
    fun b => b.toList.flatMap c.references⟩

def list (name : String) (c : Codec β) (get : σ → List β) (set : σ → List β → σ) : Component σ where
  Content := List β
  name := name
  aliases := []
  mandatory := false
  decoder := c.decoder.list
  get := get
  set := set
  write bs := if bs.isEmpty then none else some (.array (bs.map c.write))
  references bs := bs.flatMap c.references

def withAlias (c : Component σ) (other : String) : Component σ :=
  { c with aliases := other :: c.aliases }

end Component

/-- A codec for the members of an object, with the names that its scheme looks at. -/
structure ObjectCodec (α : Type) where
  scheme : Scheme α
  known : List String
  members : α → List (String × Json)
  references : α → List Reference

def ObjectCodec.codec {α : Type} (o : ObjectCodec α) : Codec α :=
  ⟨o.scheme.decoder, fun a => .object (o.members a), o.references⟩

/-- A block together with the part of the record that it fills. -/
structure Part (σ : Type) where
  Content : Type
  object : ObjectCodec Content
  get : σ → Content
  set : σ → Content → σ

namespace Part

variable {σ : Type}

def held (p : Part σ) : Held := if p.object.scheme.blocks.isEmpty then .kept else .lent

def block (p : Part σ) : Block σ := p.object.scheme.block p.set

theorem decode_block (p : Part σ) (es : List (String × Json)) :
    p.block.decode es = (p.object.scheme.ofMembers p.held es).map fun b s => p.set s b := rfl

end Part

structure Format (σ : Type) where
  blank : σ
  components : List (Component σ)
  parts : List (Part σ) := []

namespace Format

variable {σ ν : Type}

def scheme (F : Format σ) : Scheme σ where
  blank := F.blank
  fields := F.components.map Component.field
  blocks := F.parts.map Part.block

def ownNames (F : Format σ) : List String := F.components.flatMap Component.names

def known (F : Format σ) : List String := F.ownNames ++ F.parts.flatMap fun p => p.object.known

/-- Components and parts make up the record, do not touch each other, and share no name. -/
structure Lawful (F : Format σ) : Prop where
  names : F.known.Nodup
  get_set : ∀ c ∈ F.components, ∀ s b, c.get (c.set s b) = b
  get_set_other : ∀ c ∈ F.components, ∀ d ∈ F.components, c.name ≠ d.name →
    ∀ s b, c.get (d.set s b) = c.get s
  get_set_part : ∀ c ∈ F.components, ∀ p ∈ F.parts, ∀ s b, c.get (p.set s b) = c.get s
  part_get_set : ∀ p ∈ F.parts, ∀ s b, p.get (p.set s b) = b
  part_get_set_later : F.parts.Pairwise fun p q => ∀ s b, p.get (q.set s b) = p.get s
  ext : ∀ s t, (∀ c ∈ F.components, c.get s = c.get t) → (∀ p ∈ F.parts, p.get s = p.get t) → s = t

def component? (F : Format σ) (name : String) : Option (Component σ) :=
  F.components.find? (·.isNamed name)

/-- The entries under the names of a component. -/
def under (c : Component σ) (ms : List (String × ν)) : List (String × ν) :=
  ms.filter fun m => c.isNamed m.1

/-- The entries that no component asks for. -/
def foreign (F : Format σ) (ms : List (String × ν)) : List (String × ν) :=
  ms.filter fun m => (F.component? m.1).isNone

variable {F : Format σ} {c : Component σ} {name : String}

theorem find?_isNamed {cs : List (Component σ)} (h : (cs.flatMap Component.names).Nodup)
    (hc : c ∈ cs) (hName : name ∈ c.names) : cs.find? (·.isNamed name) = some c := by
  induction cs with
  | nil => exact absurd hc List.not_mem_nil
  | cons d r ih =>
    rw [List.flatMap_cons, List.nodup_append] at h
    rcases List.mem_cons.mp hc with rfl | hc
    · exact List.find?_cons_of_pos (Component.isNamed_iff.mpr hName)
    · have hOther : ¬ d.isNamed name = true := fun hd =>
        h.2.2 name (Component.isNamed_iff.mp hd) name (List.mem_flatMap.mpr ⟨c, hc, hName⟩) rfl
      rw [List.find?_cons, Bool.eq_false_iff.mpr hOther]
      exact ih h.2.1 hc

namespace Lawful

theorem ownNames_nodup (h : F.Lawful) : F.ownNames.Nodup := (List.nodup_append.mp h.names).1

theorem component?_eq_some_iff (h : F.Lawful) :
    F.component? name = some c ↔ c ∈ F.components ∧ name ∈ c.names := by
  constructor
  · intro hc
    exact ⟨List.mem_of_find?_eq_some hc, Component.isNamed_iff.mp (List.find?_some hc :)⟩
  · rintro ⟨hc, hName⟩
    exact find?_isNamed h.ownNames_nodup hc hName

theorem eq_of_names (h : F.Lawful) {d : Component σ} (hc : c ∈ F.components)
    (hd : d ∈ F.components) (hcName : name ∈ c.names) (hdName : name ∈ d.names) : c = d :=
  Option.some.inj ((h.component?_eq_some_iff.mpr ⟨hc, hcName⟩).symm.trans
    (h.component?_eq_some_iff.mpr ⟨hd, hdName⟩))

theorem eq_of_name (h : F.Lawful) {d : Component σ} (hc : c ∈ F.components)
    (hd : d ∈ F.components) (hName : c.name = d.name) : c = d :=
  h.eq_of_names hc hd List.mem_cons_self (hName ▸ List.mem_cons_self)

end Lawful

theorem component?_eq_none_iff : F.component? name = none ↔ name ∉ F.ownNames := by
  simp only [component?, List.find?_eq_none, ownNames, List.mem_flatMap, Component.isNamed_iff]
  exact ⟨fun h ⟨c, hc, hName⟩ => h c hc hName, fun h c hc hName => h ⟨c, hc, hName⟩⟩

theorem foreign_of_ownNames {G : Format σ} (h : G.ownNames = F.ownNames) (ms : List (String × ν)) :
    G.foreign ms = F.foreign ms := by
  refine List.filter_congr fun m _ => ?_
  rw [Bool.eq_iff_iff, Option.isNone_iff_eq_none, Option.isNone_iff_eq_none, component?_eq_none_iff,
    component?_eq_none_iff, h]

/-! ## One entry -/

def step (F : Format σ) (R : Reader ν) (p : Progress σ) (m : String × ν) : Decoded (Progress σ) :=
  F.scheme.entry (fun f v => R.read f.decoder v) R.keep p m.1 m.2

def run (F : Format σ) (R : Reader ν) (ms : List (String × ν)) : Decoded (Progress σ) :=
  ms.foldlM (F.step R) F.scheme.start

variable {R : Reader ν} {p q : Progress σ} {m : String × ν} {ms : List (String × ν)}

theorem field?_scheme (F : Format σ) (name : String) :
    F.scheme.field? name = (F.component? name).map Component.field :=
  List.find?_map ..

theorem step_of_component (hc : F.component? m.1 = some c) :
    F.step R p m =
      if c.name ∈ p.met then .error (.duplicateField c.name)
      else (R.read c.decoder m.2).map fun b =>
        { p with record := c.set p.record b, met := c.name :: p.met } := by
  have hField : F.scheme.field? m.1 = some c.field := by rw [field?_scheme, hc, Option.map_some]
  have hRead : R.read c.field.decoder m.2 = (R.read c.decoder m.2).map fun b s => c.set s b :=
    R.read_map ..
  simp only [step, Scheme.entry, hField, hRead]
  change (if c.name ∈ p.met then _ else _) = _
  cases R.read c.decoder m.2 <;> rfl

theorem step_of_foreign (hm : F.component? m.1 = none) :
    F.step R p m = (R.keep m.2).map fun w => { p with aside := (m.1, w) :: p.aside } := by
  have hField : F.scheme.field? m.1 = none := by rw [field?_scheme, hm, Option.map_none]
  simp only [step, Scheme.entry, hField]

theorem run_append_singleton (ms : List (String × ν)) (m : String × ν) :
    F.run R (ms ++ [m]) = (F.run R ms).bind fun p => F.step R p m := by
  rw [run, List.foldlM_append]
  change (F.run R ms).bind (fun p => (F.step R p m).bind .ok) = _
  congr
  funext p
  cases F.step R p m <;> rfl

/-! ## Runs -/

/-- What is known after a run: a component has what the one entry under its names says, or there is
no such entry and the component is blank; the other entries are set aside in order. -/
structure Reached (F : Format σ) (R : Reader ν) (ms : List (String × ν)) (q : Progress σ) :
    Prop where
  component : ∀ c ∈ F.components,
    (under c ms = [] ∧ c.name ∉ q.met ∧ c.get q.record = c.get F.blank) ∨
      ∃ m, under c ms = [m] ∧ c.name ∈ q.met ∧ R.read c.decoder m.2 = .ok (c.get q.record)
  aside : List.Forall₂ (fun m e => e.1 = m.1 ∧ R.keep m.2 = .ok e.2) (F.foreign ms) q.aside.reverse

theorem under_append_of_neg {c : Component σ} (h : m.1 ∉ c.names) :
    under c (ms ++ [m]) = under c ms := by
  have hNamed : c.isNamed m.1 = false := Bool.eq_false_iff.mpr (mt Component.isNamed_iff.mp h)
  simp [under, hNamed]

theorem under_append_of_pos {c : Component σ} (h : m.1 ∈ c.names) :
    under c (ms ++ [m]) = under c ms ++ [m] := by
  simp [under, Component.isNamed_iff.mpr h]

theorem foreign_append_of_component (hc : F.component? m.1 = some c) :
    F.foreign (ms ++ [m]) = F.foreign ms := by
  simp [foreign, hc]

theorem foreign_append_of_none (hm : F.component? m.1 = none) :
    F.foreign (ms ++ [m]) = F.foreign ms ++ [m] := by
  simp [foreign, hm]

theorem reached_start : F.Reached R [] F.scheme.start where
  component _ _ := .inl ⟨rfl, List.not_mem_nil, rfl⟩
  aside := .nil

theorem Reached.of_foreign (hp : F.Reached R ms p) (hm : F.component? m.1 = none) {w : Json}
    (hw : R.keep m.2 = .ok w) :
    F.Reached R (ms ++ [m]) { p with aside := (m.1, w) :: p.aside } where
  component d hd := by
    have hOther : m.1 ∉ d.names := fun hName =>
      component?_eq_none_iff.mp hm (List.mem_flatMap.mpr ⟨d, hd, hName⟩)
    rw [under_append_of_neg hOther]
    exact hp.component d hd
  aside := by
    rw [foreign_append_of_none hm, List.reverse_cons]
    exact List.rel_append hp.aside (.cons ⟨rfl, hw⟩ .nil)

theorem Reached.under_eq_nil_iff (hp : F.Reached R ms p) {c : Component σ}
    (hc : c ∈ F.components) : under c ms = [] ↔ c.name ∉ p.met := by
  rcases hp.component c hc with ⟨hEmpty, hMet, -⟩ | ⟨n, hSingle, hMet, -⟩
  · exact iff_of_true hEmpty hMet
  · exact iff_of_false (by simp [hSingle]) (not_not_intro hMet)

theorem Reached.of_component (h : F.Lawful) (hp : F.Reached R ms p)
    (hc : F.component? m.1 = some c) (hNew : c.name ∉ p.met) {b : c.Content}
    (hb : R.read c.decoder m.2 = .ok b) :
    F.Reached R (ms ++ [m])
      { p with record := c.set p.record b, met := c.name :: p.met } where
  component d hd := by
    obtain ⟨hcMem, hcName⟩ := h.component?_eq_some_iff.mp hc
    by_cases hName : d.name = c.name
    · obtain rfl := h.eq_of_name hd hcMem hName
      have hEmpty : under d ms = [] := (hp.under_eq_nil_iff hd).mpr hNew
      refine .inr ⟨m, ?_, List.mem_cons_self, ?_⟩
      · rw [under_append_of_pos hcName, hEmpty, List.nil_append]
      · rw [h.get_set d hd]
        exact hb
    · have hOther : m.1 ∉ d.names := fun hdName =>
        hName (congrArg Component.name (h.eq_of_names hd hcMem hdName hcName))
      have hGet : d.get (c.set p.record b) = d.get p.record :=
        h.get_set_other d hd c hcMem hName p.record b
      rw [under_append_of_neg hOther, hGet]
      refine (hp.component d hd).imp ?_ ?_
      · rintro ⟨hEmpty, hMet, hBlank⟩
        exact ⟨hEmpty, fun hMem => (List.mem_cons.mp hMem).elim hName hMet, hBlank⟩
      · rintro ⟨n, hUnder, hMet, hRead⟩
        exact ⟨n, hUnder, List.mem_cons_of_mem _ hMet, hRead⟩
  aside := by
    rw [foreign_append_of_component hc]
    exact hp.aside

theorem Lawful.reached_of_run (h : F.Lawful) (hq : F.run R ms = .ok q) : F.Reached R ms q := by
  -- From the end: what was reached before the last entry carries over to it.
  induction ms using List.reverseRecOn generalizing q with
  | nil => cases hq; exact reached_start
  | append_singleton ms m ih =>
    rw [run_append_singleton] at hq
    obtain ⟨p, hRun, hq⟩ := exists_of_bind_eq_ok hq
    cases hc : F.component? m.1 with
    | none =>
      rw [step_of_foreign hc] at hq
      obtain ⟨w, hw, rfl⟩ := exists_of_map_eq_ok hq
      exact (ih hRun).of_foreign hc hw
    | some c =>
      rw [step_of_component hc] at hq
      split at hq
      · cases hq
      · rename_i hNew
        obtain ⟨b, hb, rfl⟩ := exists_of_map_eq_ok hq
        exact (ih hRun).of_component h hc hNew hb

/-- The last entry is the only one under the names of its component, if there is at most one. -/
theorem first_of_under {c : Component σ} (hName : m.1 ∈ c.names)
    (h : under c (ms ++ [m]) = [] ∨
      ∃ n b, under c (ms ++ [m]) = [n] ∧ R.read c.decoder n.2 = .ok b) :
    under c ms = [] ∧ ∃ b, R.read c.decoder m.2 = .ok b := by
  rw [under_append_of_pos hName] at h
  rcases h with hEmpty | ⟨n, b, hSingle, hRead⟩
  · simp at hEmpty
  · rcases List.append_eq_singleton_iff.mp hSingle with ⟨hEmpty, hEq⟩ | ⟨-, hEq⟩
    · cases hEq
      exact ⟨hEmpty, b, hRead⟩
    · cases hEq

/-- A run ends well if no component has two entries and every entry can be read. -/
theorem Lawful.exists_run (h : F.Lawful)
    (hc : ∀ c ∈ F.components,
      under c ms = [] ∨ ∃ m b, under c ms = [m] ∧ R.read c.decoder m.2 = .ok b)
    (hm : ∀ m ∈ F.foreign ms, ∃ w, R.keep m.2 = .ok w) : ∃ q, F.run R ms = .ok q := by
  induction ms using List.reverseRecOn with
  | nil => exact ⟨_, rfl⟩
  | append_singleton ms m ih =>
    cases hOwner : F.component? m.1 with
    | none =>
      have hOther : ∀ c ∈ F.components, m.1 ∉ c.names := fun c hcMem hName =>
        component?_eq_none_iff.mp hOwner (List.mem_flatMap.mpr ⟨c, hcMem, hName⟩)
      have hUnder : ∀ c ∈ F.components, under c (ms ++ [m]) = under c ms := fun c hcMem =>
        under_append_of_neg (hOther c hcMem)
      rw [foreign_append_of_none hOwner] at hm
      obtain ⟨p, hp⟩ := ih
        (fun c hcMem => hUnder c hcMem ▸ hc c hcMem)
        (fun n hn => hm n (List.mem_append_left _ hn))
      obtain ⟨w, hw⟩ := hm m (List.mem_append_right _ List.mem_cons_self)
      rw [run_append_singleton, hp]
      exact ⟨_, (step_of_foreign hOwner).trans (by rw [hw]; rfl)⟩
    | some c =>
      obtain ⟨hcMem, hcName⟩ := h.component?_eq_some_iff.mp hOwner
      rw [foreign_append_of_component hOwner] at hm
      obtain ⟨hEmpty, b, hb⟩ := first_of_under hcName (hc c hcMem)
      have hBefore : ∀ d ∈ F.components, under d ms = [] ∨
          ∃ m b, under d ms = [m] ∧ R.read d.decoder m.2 = .ok b := by
        intro d hd
        by_cases hdName : m.1 ∈ d.names
        · rw [h.eq_of_names hd hcMem hdName hcName]
          exact .inl hEmpty
        · have hUnder : under d (ms ++ [m]) = under d ms := under_append_of_neg hdName
          exact hUnder ▸ hc d hd
      obtain ⟨p, hp⟩ := ih hBefore hm
      have hNew : c.name ∉ p.met := ((h.reached_of_run hp).under_eq_nil_iff hcMem).mp hEmpty
      rw [run_append_singleton, hp]
      exact ⟨_, (step_of_component hOwner).trans (by rw [if_neg hNew, hb]; rfl)⟩

/-! ## The end of an object -/

variable {s t : σ} {es : List (String × Json)} {ps : List (Part σ)}

theorem missing?_eq_none_iff {met : List String} :
    F.scheme.missing? met = none ↔ ∀ c ∈ F.components, c.mandatory = true → c.name ∈ met := by
  rw [Scheme.missing?, Option.map_eq_none_iff, List.find?_eq_none]
  simp only [scheme, List.forall_mem_map, Component.field, Bool.and_eq_true, Bool.not_eq_true',
    not_and, Bool.not_eq_false, List.contains_iff_mem]

theorem applyBlocks_cons (p : Part σ) (ps : List (Part σ)) (es : List (String × Json)) (s : σ) :
    Scheme.applyBlocks ((p :: ps).map Part.block) es s =
      (p.object.scheme.ofMembers p.held es).bind fun b =>
        Scheme.applyBlocks (ps.map Part.block) es (p.set s b) := by
  rw [Scheme.applyBlocks, List.map_cons, List.foldlM_cons, p.decode_block]
  cases p.object.scheme.ofMembers p.held es <;> rfl

theorem get_of_applyBlocks {γ : Type} {g : σ → γ}
    (hg : ∀ p ∈ ps, ∀ s b, g (p.set s b) = g s)
    (h : Scheme.applyBlocks (ps.map Part.block) es s = .ok t) : g t = g s := by
  induction ps generalizing s with
  | nil => cases h; rfl
  | cons p r ih =>
    rw [List.forall_mem_cons] at hg
    rw [applyBlocks_cons] at h
    obtain ⟨b, -, h⟩ := exists_of_bind_eq_ok h
    exact (ih hg.2 h).trans (hg.1 s b)

theorem content_of_applyBlocks (hSet : ∀ p ∈ ps, ∀ s b, p.get (p.set s b) = b)
    (hLater : ps.Pairwise fun p q => ∀ s b, p.get (q.set s b) = p.get s)
    (h : Scheme.applyBlocks (ps.map Part.block) es s = .ok t) :
    ∀ p ∈ ps, p.object.scheme.ofMembers p.held es = .ok (p.get t) := by
  induction ps generalizing s with
  | nil => exact fun p hp => absurd hp List.not_mem_nil
  | cons p r ih =>
    rw [List.pairwise_cons] at hLater
    rw [List.forall_mem_cons] at hSet
    rw [applyBlocks_cons] at h
    obtain ⟨b, hb, h⟩ := exists_of_bind_eq_ok h
    have hKept : p.get t = b := (get_of_applyBlocks hLater.1 h).trans (hSet.1 s b)
    refine List.forall_mem_cons.mpr ⟨?_, ih hSet.2 hLater.2 h⟩
    rw [hb, hKept]

theorem exists_applyBlocks (h : ∀ p ∈ ps, ∃ b, p.object.scheme.ofMembers p.held es = .ok b)
    (s : σ) :
    ∃ t, Scheme.applyBlocks (ps.map Part.block) es s = .ok t := by
  induction ps generalizing s with
  | nil => exact ⟨s, rfl⟩
  | cons p r ih =>
    rw [List.forall_mem_cons] at h
    obtain ⟨b, hb⟩ := h.1
    obtain ⟨t, ht⟩ := ih h.2 (p.set s b)
    exact ⟨t, by rw [applyBlocks_cons, hb]; exact ht⟩

theorem Lawful.finish_eq_ok_iff (h : F.Lawful) {a : σ} :
    F.scheme.finish q = .ok a ↔
      (∀ c ∈ F.components, (c.mandatory = true → c.name ∈ q.met) ∧ c.get a = c.get q.record) ∧
        ∀ p ∈ F.parts, p.object.scheme.ofMembers p.held q.aside.reverse = .ok (p.get a) := by
  constructor
  · intro hq
    simp only [Scheme.finish] at hq
    split at hq
    · cases hq
    · rename_i hMissing
      refine ⟨fun c hc => ⟨missing?_eq_none_iff.mp hMissing c hc, ?_⟩, ?_⟩
      · exact get_of_applyBlocks (fun p hp => h.get_set_part c hc p hp) hq
      · exact content_of_applyBlocks h.part_get_set h.part_get_set_later hq
  · rintro ⟨hComponents, hParts⟩
    have hMissing : F.scheme.missing? q.met = none :=
      missing?_eq_none_iff.mpr fun c hc => (hComponents c hc).1
    obtain ⟨t, ht⟩ := exists_applyBlocks (fun p hp => ⟨_, hParts p hp⟩) q.record
    have hEq : t = a := by
      refine h.ext t a (fun c hc => ?_) (fun p hp => ?_)
      · exact (get_of_applyBlocks (fun p hp => h.get_set_part c hc p hp) ht).trans
          (hComponents c hc).2.symm
      · have hContent := content_of_applyBlocks h.part_get_set h.part_get_set_later ht p hp
        rw [hParts p hp] at hContent
        exact (Except.ok.inj hContent).symm
    simp only [Scheme.finish, hMissing]
    exact hEq ▸ ht

/-! ## Objects as records -/

/-- What a component is by the entries under its names: blank if there is none, else what the one
entry is read as. -/
def Says (R : Reader ν) (ms : List (String × ν)) (blank a : σ) (c : Component σ) : Prop :=
  (under c ms = [] ∧ c.mandatory = false ∧ c.get a = c.get blank) ∨
    ∃ m, under c ms = [m] ∧ R.read c.decoder m.2 = .ok (c.get a)

/-- The record that entries say, where `es` is what is set aside of them. -/
structure Yields (F : Format σ) (R : Reader ν) (ms : List (String × ν)) (es : List (String × Json))
    (a : σ) : Prop where
  component : ∀ c ∈ F.components, Says R ms F.blank a c
  aside : List.Forall₂ (fun m e => e.1 = m.1 ∧ R.keep m.2 = .ok e.2) (F.foreign ms) es
  part : ∀ p ∈ F.parts, p.object.scheme.ofMembers p.held es = .ok (p.get a)

theorem forall₂_keep_unique {keep : ν → Decoded Json} {ms : List (String × ν)}
    {es es' : List (String × Json)}
    (h : List.Forall₂ (fun m e => e.1 = m.1 ∧ keep m.2 = .ok e.2) ms es)
    (h' : List.Forall₂ (fun m e => e.1 = m.1 ∧ keep m.2 = .ok e.2) ms es') : es = es' := by
  induction h generalizing es' with
  | nil => rw [List.forall₂_nil_left_iff.mp h']
  | cons hm _ ih =>
    obtain ⟨e', r, hm', hRest, rfl⟩ := List.forall₂_cons_left_iff.mp h'
    rw [ih hRest, Prod.ext (hm.1.trans hm'.1.symm) (Except.ok.inj (hm.2.symm.trans hm'.2))]

theorem Lawful.run_eq_ok_iff (h : F.Lawful) {a : σ} :
    (F.run R ms).bind F.scheme.finish = .ok a ↔ ∃ es, F.Yields R ms es a := by
  constructor
  · intro ha
    obtain ⟨q, hRun, ha⟩ := exists_of_bind_eq_ok ha
    have hReached := h.reached_of_run hRun
    obtain ⟨hComponents, hParts⟩ := h.finish_eq_ok_iff.mp ha
    refine ⟨_, fun c hc => ?_, hReached.aside, hParts⟩
    obtain ⟨hMandatory, hGet⟩ := hComponents c hc
    rcases hReached.component c hc with ⟨hEmpty, hMet, hBlank⟩ | ⟨m, hSingle, -, hRead⟩
    · exact .inl ⟨hEmpty, Bool.eq_false_iff.mpr (mt hMandatory hMet), hGet.trans hBlank⟩
    · exact .inr ⟨m, hSingle, hGet ▸ hRead⟩
  · rintro ⟨es, ha⟩
    obtain ⟨q, hRun⟩ : ∃ q, F.run R ms = .ok q := h.exists_run
      (fun c hc =>
        Or.imp And.left (fun ⟨m, hSingle, hRead⟩ => ⟨m, _, hSingle, hRead⟩) (ha.component c hc))
      (fun m hm => by
        obtain ⟨e, -, he⟩ := exists_of_forall₂ ha.aside.flip hm
        exact ⟨e.2, he.2⟩)
    rw [hRun]
    have hReached := h.reached_of_run hRun
    refine h.finish_eq_ok_iff.mpr ⟨fun c hc => ?_, fun p hp => ?_⟩
    · rcases ha.component c hc with ⟨hEmpty, hMandatory, hBlank⟩ | ⟨m, hSingle, hRead⟩
      · rcases hReached.component c hc with ⟨-, -, hGet⟩ | ⟨n, hOther, -⟩
        · exact ⟨fun hTrue => absurd hTrue (Bool.eq_false_iff.mp hMandatory),
            hBlank.trans hGet.symm⟩
        · rw [hEmpty] at hOther
          cases hOther
      · rcases hReached.component c hc with ⟨hEmpty, -⟩ | ⟨n, hOther, hMet, hFound⟩
        · rw [hEmpty] at hSingle
          cases hSingle
        · rw [hSingle] at hOther
          cases hOther
          exact ⟨fun _ => hMet, Except.ok.inj (hRead.symm.trans hFound)⟩
    · rw [forall₂_keep_unique hReached.aside ha.aside]
      exact ha.part p hp

/-- The record that the members of an object say. -/
structure Reads (F : Format σ) (held : Held) (ms : List (String × Json)) (a : σ) : Prop where
  component : ∀ c ∈ F.components, Says (.value held) ms F.blank a c
  part : ∀ p ∈ F.parts, p.object.scheme.ofMembers p.held (F.foreign ms) = .ok (p.get a)

theorem eq_of_forall₂_keep {ms es : List (String × Json)} (held : Held)
    (h : List.Forall₂ (fun m e => e.1 = m.1 ∧ (Reader.value held).keep m.2 = .ok e.2) ms es) :
    es = ms :=
  forall₂_keep_unique h (List.forall₂_same.mpr fun _ _ => ⟨rfl, rfl⟩)

theorem ofMembers_eq (F : Format σ) (held : Held) (ms : List (String × Json)) :
    F.scheme.ofMembers held ms = (F.run (.value held) ms).bind F.scheme.finish := rfl

theorem Lawful.ofMembers_eq_ok_iff (h : F.Lawful) {held : Held} {ms : List (String × Json)}
    {a : σ} :
    F.scheme.ofMembers held ms = .ok a ↔ F.Reads held ms a := by
  rw [ofMembers_eq, h.run_eq_ok_iff]
  constructor
  · rintro ⟨es, ha⟩
    rw [eq_of_forall₂_keep held ha.aside] at ha
    exact ⟨ha.component, ha.part⟩
  · intro ha
    exact ⟨_, ha.component, List.forall₂_same.mpr fun _ _ => ⟨rfl, rfl⟩, ha.part⟩

end Format

end AssetShell
