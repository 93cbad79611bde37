import AssetShell.Proofs.Interchange.FormatSources

/-!
# Codecs from formats

A format with lawful components and lawful parts gives a lawful codec of its records, if a record is
written as the members of its components and parts, in any order.
-/

namespace AssetShell

variable {σ β : Type} {n : Nat}

/-! ## Lawful components -/

namespace Component

/-- Laws of a component, where only what is written less than `n` deep must be tidy and restored. -/
structure Lawful (c : Component σ) (n : Nat) : Prop where
  tidy : ∀ b v, c.write b = some v → v.depth < n → v.Tidy
  restores : ∀ b v, c.write b = some v → v.depth < n → ∀ held w, w.Alike v →
    c.decoder.value held w = .ok b
  depth_le : ∀ held w b v, c.decoder.value held w = .ok b → c.write b = some v → v.depth ≤ w.depth
  of_value : ∀ held v b, c.decoder.value held v = .ok b → ∀ r ∈ c.references b, v.Holds r
  of_text : ∀ levels o b, c.decoder.text levels o = .ok b → ∀ r ∈ c.references b, o.Holds r

variable {name other : String} {c : Codec β}

@[simp] theorem withAlias_lawful {d : Component σ} : (d.withAlias other).Lawful n ↔ d.Lawful n :=
  ⟨fun h => ⟨h.tidy, h.restores, h.depth_le, h.of_value, h.of_text⟩,
    fun h => ⟨h.tidy, h.restores, h.depth_le, h.of_value, h.of_text⟩⟩

@[simp] theorem required_lawful {get : σ → β} {set : σ → β → σ} (h : c.Lawful n) :
    (required name c get set).Lawful n where
  tidy b v hv := by
    cases hv
    exact h.tidy b
  restores b v hv hDepth held w hw := by
    cases hv
    exact h.restores b hDepth held w hw
  depth_le held w b v hb hv := by
    cases hv
    exact h.depth_le held w b hb
  of_value := h.of_value
  of_text := h.of_text

@[simp] theorem defaulted_lawful {get : σ → β} {set : σ → β → σ} (h : c.Lawful n) :
    (defaulted name c get set).Lawful n :=
  have hRequired : (required name c get set).Lawful n := required_lawful h
  ⟨hRequired.tidy, hRequired.restores, hRequired.depth_le, hRequired.of_value, hRequired.of_text⟩

theorem optional_value_eq_some {held : Held} {v : Json} {b : β}
    (h : c.decoder.optional.value held v = .ok (some b)) : c.decoder.value held v = .ok b := by
  simp only [Decoder.optional] at h
  split at h
  · cases h
  · obtain ⟨found, hb, hFound⟩ := exists_of_map_eq_ok h
    exact Option.some.inj hFound ▸ hb

theorem optional_text_eq_some {levels : Nat} {o : Outline} {b : β}
    (h : c.decoder.optional.text levels o = .ok (some b)) : c.decoder.text levels o = .ok b := by
  simp only [Decoder.optional] at h
  split at h
  · cases h
  · obtain ⟨found, hb, hFound⟩ := exists_of_map_eq_ok h
    exact Option.some.inj hFound ▸ hb

@[simp] theorem optional_lawful {get : σ → Option β} {set : σ → Option β → σ} (h : c.Lawful n) :
    (optional name c get set).Lawful n where
  tidy b v hv := by
    obtain ⟨b, rfl, rfl⟩ := Option.map_eq_some_iff.mp hv
    exact h.tidy b
  restores b v hv hDepth held w hw := by
    obtain ⟨b, rfl, rfl⟩ := Option.map_eq_some_iff.mp hv
    have hb := h.restores b hDepth held w hw
    have hNull : w ≠ .null := by
      rintro rfl
      have hEq := hw.canonical_eq
      have hTidy := h.tidy b hDepth
      cases hWritten : c.write b <;> simp_all [Json.canonical]
      cases hTidy
    simp only [optional, Decoder.optional]
    cases w with
    | null => exact absurd rfl hNull
    | _ => exact congrArg (Except.map some) hb
  depth_le held w b v hb hv := by
    obtain ⟨b, rfl, rfl⟩ := Option.map_eq_some_iff.mp hv
    exact h.depth_le held w b (optional_value_eq_some hb)
  of_value held v b hb r hr := by
    obtain ⟨b, hSome, hr⟩ := List.mem_flatMap.mp hr
    rw [Option.mem_toList.mp hSome] at hb
    exact h.of_value held v b (optional_value_eq_some hb) r hr
  of_text levels o b hb r hr := by
    obtain ⟨b, hSome, hr⟩ := List.mem_flatMap.mp hr
    rw [Option.mem_toList.mp hSome] at hb
    exact h.of_text levels o b (optional_text_eq_some hb) r hr

theorem write_list_eq_some {get : σ → List β} {set : σ → List β → σ} {bs : List β} {v : Json}
    (h : (list name c get set).write bs = some v) : (Codec.list c).write bs = v := by
  simp only [list] at h
  split at h
  · cases h
  · exact Option.some.inj h

theorem list_lawful_of_codec {get : σ → List β} {set : σ → List β → σ}
    (h : (Codec.list c).Lawful n) :
    (list name c get set).Lawful n where
  tidy bs v hv := write_list_eq_some hv ▸ h.tidy bs
  restores bs v hv hDepth held w hw := by
    obtain rfl := write_list_eq_some hv
    exact h.restores bs hDepth held w hw
  depth_le held w bs v hbs hv := write_list_eq_some hv ▸ h.depth_le held w bs hbs
  of_value := h.of_value
  of_text := h.of_text

@[simp] theorem list_lawful {get : σ → List β} {set : σ → List β → σ} (h : c.Lawful n) :
    (list name c get set).Lawful n := list_lawful_of_codec (Codec.list_lawful h)

end Component

/-! ## Blanks -/

namespace Component

/-- Only what is blank is left out, and a blank that is written holds nothing. -/
structure Vacant (c : Component σ) (blank : σ) : Prop where
  absent : ∀ b, c.write b = none → c.mandatory = false ∧ b = c.get blank
  depth : c.mandatory = false → ∀ v, c.write (c.get blank) = some v → v.depth = 0
  references : c.mandatory = false → c.references (c.get blank) = []

variable {name other : String} {c : Codec β} {blank : σ}

@[simp] theorem withAlias_vacant {d : Component σ} :
    (d.withAlias other).Vacant blank ↔ d.Vacant blank :=
  ⟨fun h => ⟨h.absent, h.depth, h.references⟩, fun h => ⟨h.absent, h.depth, h.references⟩⟩

@[simp] theorem required_vacant {get : σ → β} {set : σ → β → σ} :
    (required name c get set).Vacant blank where
  absent _ h := nomatch h
  depth h := nomatch h
  references h := nomatch h

@[simp] theorem defaulted_vacant {get : σ → β} {set : σ → β → σ}
    (h : (c.write (get blank)).depth = 0 ∧ c.references (get blank) = []) :
    (defaulted name c get set).Vacant blank where
  absent _ h := nomatch h
  depth _ _ hv := Option.some.inj hv ▸ h.1
  references _ := h.2

@[simp] theorem optional_vacant {get : σ → Option β} {set : σ → Option β → σ}
    (h : get blank = none) : (optional name c get set).Vacant blank where
  absent b hb := ⟨rfl, (Option.map_eq_none_iff.mp hb).trans h.symm⟩
  depth _ v hv := by
    simp [optional, h] at hv
  references _ := by simp [optional, h]

@[simp] theorem list_vacant {get : σ → List β} {set : σ → List β → σ} (h : get blank = []) :
    (list name c get set).Vacant blank where
  absent bs hbs := by
    have hEmpty : bs.isEmpty = true := by simpa [list] using hbs
    exact ⟨rfl, (List.isEmpty_iff.mp hEmpty).trans h.symm⟩
  depth _ v hv := by
    simp [list, h] at hv
  references _ := by simp [list, h]

end Component

/-! ## Lawful members -/

theorem Json.depth_lt_of_member {ms : List (String × Json)} (h : (Json.object ms).depth < n + 1) :
    ∀ m ∈ ms, m.2.depth < n := fun _ hm =>
  Nat.lt_of_le_of_lt (Json.depth_le_depthOfMembers hm) (Nat.lt_of_succ_lt_succ h)

/-- Laws of the members of an object among which others may stand. -/
structure ObjectCodec.Lawful {α : Type} (o : ObjectCodec α) (n : Nat) : Prop where
  knows : ∀ held es a, o.scheme.ofMembers held (es.filter fun m => m.1 ∈ o.known) = .ok a ↔
    o.scheme.ofMembers held es = .ok a
  names : ∀ a, ∀ m ∈ o.members a, m.1 ∈ o.known
  names_nodup : ∀ a, (Json.names (o.members a)).Nodup
  tidy : ∀ a, ∀ m ∈ o.members a, m.2.depth < n → m.2.Tidy
  restores : ∀ a, (∀ m ∈ o.members a, m.2.depth < n) → ∀ held ms,
    Json.AlikeMembers ms (o.members a) → o.scheme.ofMembers held ms = .ok a
  depth_le : ∀ held es a, o.scheme.ofMembers held es = .ok a →
    Json.depthOfMembers (o.members a) ≤ Json.depthOfMembers es
  of_members : ∀ held es a, o.scheme.ofMembers held es = .ok a →
    ∀ r ∈ o.references a, ∃ m ∈ es, m.2.Holds r

/-! ## Members under disjoint names -/

theorem filter_flatMap_of_disjoint {ι : Type 1} (keys : ι → List String)
    {items : ι → List (String × Json)} {is : List ι} {i : ι}
    (hItems : ∀ i ∈ is, ∀ m ∈ items i, m.1 ∈ keys i) (hKeys : (is.flatMap keys).Nodup)
    (hi : i ∈ is) :
    ((is.flatMap items).filter fun m => m.1 ∈ keys i) = items i := by
  induction is with
  | nil => exact absurd hi List.not_mem_nil
  | cons j r ih =>
    rw [List.forall_mem_cons] at hItems
    rw [List.flatMap_cons, List.nodup_append] at hKeys
    obtain ⟨-, hRest, hApart⟩ := hKeys
    rw [List.flatMap_cons, List.filter_append]
    rcases List.mem_cons.mp hi with rfl | hi
    · have hOwn : ((items i).filter fun m => m.1 ∈ keys i) = items i :=
        List.filter_eq_self.mpr fun m hm => decide_eq_true (hItems.1 m hm)
      have hOther : ((r.flatMap items).filter fun m => m.1 ∈ keys i) = [] := by
        refine List.filter_eq_nil_iff.mpr fun m hm hKey => ?_
        obtain ⟨j, hj, hm⟩ := List.mem_flatMap.mp hm
        exact hApart m.1 (of_decide_eq_true hKey) m.1
          (List.mem_flatMap.mpr ⟨j, hj, hItems.2 j hj m hm⟩) rfl
      rw [hOwn, hOther, List.append_nil]
    · have hOther : ((items j).filter fun m => m.1 ∈ keys i) = [] := by
        refine List.filter_eq_nil_iff.mpr fun m hm hKey => ?_
        exact hApart m.1 (hItems.1 m hm) m.1
          (List.mem_flatMap.mpr ⟨i, hi, of_decide_eq_true hKey⟩) rfl
      rw [hOther, List.nil_append]
      exact ih hItems.2 hRest hi

theorem names_flatMap_nodup {ι : Type 1} (keys : ι → List String)
    {items : ι → List (String × Json)} {is : List ι}
    (hItems : ∀ i ∈ is, ∀ m ∈ items i, m.1 ∈ keys i) (hKeys : (is.flatMap keys).Nodup)
    (hNodup : ∀ i ∈ is, (Json.names (items i)).Nodup) : (Json.names (is.flatMap items)).Nodup := by
  rw [Json.names, List.map_flatMap, List.nodup_flatMap]
  refine ⟨hNodup, (List.nodup_flatMap.mp hKeys).2.imp_of_mem fun {i j} hi hj hApart => ?_⟩
  intro name hName hOther
  obtain ⟨m, hm, rfl⟩ := List.mem_map.mp hName
  obtain ⟨m', hm', hEq⟩ := List.mem_map.mp hOther
  exact hApart (hItems i hi m hm) (hEq ▸ hItems j hj m' hm')

theorem filter_eq_nil_of_disjoint {keys : List String} {ms : List (String × Json)}
    (h : ∀ m ∈ ms, m.1 ∉ keys) : (ms.filter fun m => m.1 ∈ keys) = [] :=
  List.filter_eq_nil_iff.mpr fun m hm hKey => h m hm (of_decide_eq_true hKey)

/-! ## Written records -/

namespace Component

variable {c : Component σ} {s : σ} {m : String × Json}

theorem mem_member_iff : m ∈ c.member s ↔ m.1 = c.name ∧ c.write (c.get s) = some m.2 := by
  obtain ⟨name, v⟩ := m
  rw [member]
  cases c.write (c.get s) with
  | none => simp [Json.optionalMember]
  | some w => simp [Json.optionalMember, eq_comm]

section Members

variable {name other : String} {c : Codec β}

@[simp] theorem member_required (get : σ → β) (set : σ → β → σ) (s : σ) :
    (required name c get set).member s = [(name, c.write (get s))] := rfl

@[simp] theorem member_defaulted (get : σ → β) (set : σ → β → σ) (s : σ) :
    (defaulted name c get set).member s = [(name, c.write (get s))] := rfl

@[simp] theorem member_optional (get : σ → Option β) (set : σ → Option β → σ) (s : σ) :
    (optional name c get set).member s = Json.optionalMember name ((get s).map c.write) := rfl

@[simp] theorem member_list (get : σ → List β) (set : σ → List β → σ) (s : σ) :
    (list name c get set).member s = Json.listMember name ((get s).map c.write) := by
  simp only [member, list]
  cases get s <;> rfl

@[simp] theorem member_withAlias (d : Component σ) (s : σ) :
    (d.withAlias other).member s = d.member s :=
  rfl

end Members

theorem name_mem_of_mem_member (h : m ∈ c.member s) : m.1 ∈ c.names :=
  (mem_member_iff.mp h).1 ▸ List.mem_cons_self

theorem names_member_nodup (c : Component σ) (s : σ) : (Json.names (c.member s)).Nodup := by
  rw [member]
  cases c.write (c.get s) with
  | none => exact .nil
  | some v => exact List.nodup_singleton _

end Component

namespace Format

variable {F : Format σ}

theorem under_eq_filter {ν : Type} (c : Component σ) (ms : List (String × ν)) :
    under c ms = ms.filter fun m => m.1 ∈ c.names := by
  refine List.filter_congr fun m _ => ?_
  rw [Bool.eq_iff_iff, Component.isNamed_iff, decide_eq_true_iff]

def ownMembers (F : Format σ) (s : σ) : List (String × Json) := F.components.flatMap (·.member s)

def partMembers (F : Format σ) (s : σ) : List (String × Json) :=
  F.parts.flatMap fun p => p.object.members (p.get s)

/-- The members of a record are those of its components and parts, in any order. -/
def Writes (F : Format σ) (members : σ → List (String × Json)) : Prop :=
  ∀ s, (members s).Perm (F.ownMembers s ++ F.partMembers s)

theorem writes_of_parts_first {members : σ → List (String × Json)}
    (h : ∀ s, members s = F.partMembers s ++ F.ownMembers s) : F.Writes members := by
  intro s
  rw [h s]
  exact List.perm_append_comm

theorem mem_ownNames_of_mem_ownMembers {s : σ} {m : String × Json} (h : m ∈ F.ownMembers s) :
    m.1 ∈ F.ownNames := by
  obtain ⟨c, hc, hm⟩ := List.mem_flatMap.mp h
  exact List.mem_flatMap.mpr ⟨c, hc, Component.name_mem_of_mem_member hm⟩

namespace Lawful

variable (h : F.Lawful)
include h

theorem disjoint_of_part {p : Part σ} (hp : p ∈ F.parts) {name : String}
    (hName : name ∈ p.object.known) : name ∉ F.ownNames := fun hOwn =>
  (List.nodup_append.mp h.names).2.2 name hOwn name (List.mem_flatMap.mpr ⟨p, hp, hName⟩) rfl

theorem partNames_nodup : (F.parts.flatMap fun p => p.object.known).Nodup :=
  (List.nodup_append.mp h.names).2.1

theorem under_members
    (hNames : ∀ p ∈ F.parts, ∀ s, ∀ m ∈ p.object.members (p.get s), m.1 ∈ p.object.known)
    {c : Component σ} (hc : c ∈ F.components) (s : σ) :
    under c (F.ownMembers s ++ F.partMembers s) = c.member s := by
  have hParts : ∀ m ∈ F.partMembers s, m.1 ∉ c.names := by
    intro m hm hName
    obtain ⟨p, hp, hm⟩ := List.mem_flatMap.mp hm
    exact h.disjoint_of_part hp (hNames p hp s m hm) (List.mem_flatMap.mpr ⟨c, hc, hName⟩)
  rw [under_eq_filter, List.filter_append, filter_eq_nil_of_disjoint hParts, List.append_nil]
  exact filter_flatMap_of_disjoint Component.names
    (fun d _ m hm => Component.name_mem_of_mem_member hm)
    h.ownNames_nodup hc

theorem filter_part
    (hNames : ∀ p ∈ F.parts, ∀ s, ∀ m ∈ p.object.members (p.get s), m.1 ∈ p.object.known)
    {p : Part σ} (hp : p ∈ F.parts) (s : σ) :
    ((F.ownMembers s ++ F.partMembers s).filter fun m => m.1 ∈ p.object.known) =
      p.object.members (p.get s) := by
  have hOwn : ∀ m ∈ F.ownMembers s, m.1 ∉ p.object.known := fun m hm hName =>
    h.disjoint_of_part hp hName (mem_ownNames_of_mem_ownMembers hm)
  rw [List.filter_append, filter_eq_nil_of_disjoint hOwn, List.nil_append]
  exact filter_flatMap_of_disjoint (fun p : Part σ => p.object.known)
    (fun q hq m hm => hNames q hq s m hm) h.partNames_nodup hp

theorem foreign_filter_part {p : Part σ} (hp : p ∈ F.parts) (ms : List (String × Json)) :
    ((F.foreign ms).filter fun m => m.1 ∈ p.object.known) =
      ms.filter fun m => m.1 ∈ p.object.known := by
  rw [foreign, List.filter_filter]
  refine List.filter_congr fun m _ => ?_
  by_cases hName : m.1 ∈ p.object.known
  · have hNone : F.component? m.1 = none := component?_eq_none_iff.mpr (h.disjoint_of_part hp hName)
    simp [hName, hNone]
  · simp [hName]

end Lawful

/-- Components and parts are lawful, blanks are vacant, and no reference stands outside of them. -/
structure LawfulPieces (F : Format σ) (references : σ → List Reference) (n : Nat) : Prop where
  component : ∀ c ∈ F.components, c.Lawful n
  part : ∀ p ∈ F.parts, p.object.Lawful n
  vacant : ∀ c ∈ F.components, c.Vacant F.blank
  references : ∀ s, ∀ r ∈ references s,
    (∃ c ∈ F.components, r ∈ c.references (c.get s)) ∨
      ∃ p ∈ F.parts, r ∈ p.object.references (p.get s)

def object (F : Format σ) (members : σ → List (String × Json)) (references : σ → List Reference) :
    ObjectCodec σ :=
  ⟨F.scheme, F.known, members, references⟩

variable {members : σ → List (String × Json)} {references : σ → List Reference}

/-! ### Other names do not matter -/

theorem under_filter_known {c : Component σ} (hc : c ∈ F.components) (es : List (String × Json)) :
    under c (es.filter fun m => m.1 ∈ F.known) = under c es := by
  rw [under_eq_filter, under_eq_filter, List.filter_filter]
  refine List.filter_congr fun m _ => ?_
  have hKnown : m.1 ∈ c.names → m.1 ∈ F.known := fun hName =>
    List.mem_append_left _ (List.mem_flatMap.mpr ⟨c, hc, hName⟩)
  by_cases hName : m.1 ∈ c.names
  · simp [hName, hKnown hName]
  · simp [hName]

theorem filter_known_filter_part {p : Part σ} (hp : p ∈ F.parts) (es : List (String × Json)) :
    ((F.foreign (es.filter fun m => m.1 ∈ F.known)).filter fun m => m.1 ∈ p.object.known) =
      (F.foreign es).filter fun m => m.1 ∈ p.object.known := by
  have hKnown : ∀ name ∈ p.object.known, name ∈ F.known := fun name hName =>
    List.mem_append_right _ (List.mem_flatMap.mpr ⟨p, hp, hName⟩)
  simp only [foreign, List.filter_filter]
  refine List.filter_congr fun m _ => ?_
  by_cases hName : m.1 ∈ p.object.known
  · simp [hName, hKnown m.1 hName]
  · simp [hName]

namespace Lawful

theorem ofMembers_filter_known (h : F.Lawful) (hParts : ∀ p ∈ F.parts, p.object.Lawful n)
    (held : Held) (es : List (String × Json)) (a : σ) :
    F.scheme.ofMembers held (es.filter fun m => m.1 ∈ F.known) = .ok a ↔
      F.scheme.ofMembers held es = .ok a := by
  have hPart : ∀ p ∈ F.parts, ∀ b : p.Content,
      p.object.scheme.ofMembers p.held (F.foreign (es.filter fun m => m.1 ∈ F.known)) = .ok b ↔
        p.object.scheme.ofMembers p.held (F.foreign es) = .ok b := by
    intro p hp b
    rw [← (hParts p hp).knows, filter_known_filter_part hp, (hParts p hp).knows]
  have hSays : ∀ c ∈ F.components,
      (Says (.value held) (es.filter fun m => m.1 ∈ F.known) F.blank a c ↔
        Says (.value held) es F.blank a c) := by
    intro c hc
    rw [Says, Says, under_filter_known hc]
  rw [h.ofMembers_eq_ok_iff, h.ofMembers_eq_ok_iff]
  constructor
  · intro ha
    exact ⟨fun c hc => (hSays c hc).mp (ha.component c hc),
      fun p hp => (hPart p hp _).mp (ha.part p hp)⟩
  · intro ha
    exact ⟨fun c hc => (hSays c hc).mpr (ha.component c hc),
      fun p hp => (hPart p hp _).mpr (ha.part p hp)⟩

end Lawful

/-! ### Writing and reading -/

section Members

variable (h : F.Lawful) (hWrites : F.Writes members) (hComponents : ∀ c ∈ F.components, c.Lawful n)
  (hParts : ∀ p ∈ F.parts, p.object.Lawful n)
  (hAbsent : ∀ c ∈ F.components, ∀ b, c.write b = none → c.mandatory = false ∧ b = c.get F.blank)

include hWrites in
theorem Writes.mem_iff {s : σ} {m : String × Json} :
    m ∈ members s ↔ m ∈ F.ownMembers s ∨ m ∈ F.partMembers s := by
  rw [(hWrites s).mem_iff, List.mem_append]

include hWrites in
theorem Writes.of_component {s : σ} {c : Component σ} {m : String × Json} (hc : c ∈ F.components)
    (hm : m ∈ c.member s) : m ∈ members s :=
  hWrites.mem_iff.mpr (.inl (List.mem_flatMap.mpr ⟨c, hc, hm⟩))

include hWrites in
theorem Writes.of_part {s : σ} {p : Part σ} {m : String × Json} (hp : p ∈ F.parts)
    (hm : m ∈ p.object.members (p.get s)) : m ∈ members s :=
  hWrites.mem_iff.mpr (.inr (List.mem_flatMap.mpr ⟨p, hp, hm⟩))

include hWrites hParts in
theorem Writes.name_mem_known {s : σ} {m : String × Json} (hm : m ∈ members s) : m.1 ∈ F.known := by
  rcases hWrites.mem_iff.mp hm with hm | hm
  · exact List.mem_append_left _ (mem_ownNames_of_mem_ownMembers hm)
  · obtain ⟨p, hp, hm⟩ := List.mem_flatMap.mp hm
    exact List.mem_append_right _ (List.mem_flatMap.mpr ⟨p, hp, (hParts p hp).names _ m hm⟩)

include h hWrites hParts in
theorem Writes.names_nodup (s : σ) : (Json.names (members s)).Nodup := by
  have hOwn : (Json.names (F.ownMembers s)).Nodup :=
    names_flatMap_nodup Component.names (fun c _ m hm => Component.name_mem_of_mem_member hm)
      h.ownNames_nodup
      fun c _ => c.names_member_nodup s
  have hPart : (Json.names (F.partMembers s)).Nodup :=
    names_flatMap_nodup (fun p : Part σ => p.object.known)
      (fun p hp m hm => (hParts p hp).names _ m hm) h.partNames_nodup
      fun p hp => (hParts p hp).names_nodup (p.get s)
  have hApart : ∀ name ∈ Json.names (F.ownMembers s), ∀ other ∈ Json.names (F.partMembers s),
      name ≠ other := by
    rintro _ hName _ hOther rfl
    obtain ⟨m, hm, rfl⟩ := List.mem_map.mp hName
    obtain ⟨m', hm', hEq⟩ := List.mem_map.mp hOther
    obtain ⟨p, hp, hm'⟩ := List.mem_flatMap.mp hm'
    exact h.disjoint_of_part hp (hEq ▸ (hParts p hp).names _ m' hm')
      (mem_ownNames_of_mem_ownMembers hm)
  rw [((hWrites s).map Prod.fst).nodup_iff, List.map_append]
  exact List.nodup_append.mpr ⟨hOwn, hPart, hApart⟩

include hWrites hComponents hParts in
theorem Writes.tidy {s : σ} {m : String × Json} (hm : m ∈ members s) (hDepth : m.2.depth < n) :
    m.2.Tidy := by
  rcases hWrites.mem_iff.mp hm with hm | hm
  · obtain ⟨c, hc, hm⟩ := List.mem_flatMap.mp hm
    exact (hComponents c hc).tidy _ _ (Component.mem_member_iff.mp hm).2 hDepth
  · obtain ⟨p, hp, hm⟩ := List.mem_flatMap.mp hm
    exact (hParts p hp).tidy (p.get s) m hm hDepth

include h hWrites hComponents hParts hAbsent in
theorem Writes.restores {s : σ} (hDepth : ∀ m ∈ members s, m.2.depth < n) {held : Held}
    {ms : List (String × Json)} (hms : Json.AlikeMembers ms (members s)) :
    F.scheme.ofMembers held ms = .ok s := by
  have hNames : ∀ p ∈ F.parts, ∀ s, ∀ m ∈ p.object.members (p.get s), m.1 ∈ p.object.known :=
    fun p hp s => (hParts p hp).names (p.get s)
  have hAlike := hms.of_perm (hWrites s)
  refine h.ofMembers_eq_ok_iff.mpr ⟨fun c hc => ?_, fun p hp => ?_⟩
  · have hUnder : Json.AlikeMembers (under c ms) (c.member s) := by
      rw [← h.under_members hNames hc s]
      exact hAlike.filter c.isNamed
    cases hWritten : c.write (c.get s) with
    | none =>
      rw [Component.member, hWritten] at hUnder
      obtain ⟨hMandatory, hBlank⟩ := hAbsent c hc _ hWritten
      exact .inl ⟨hUnder.eq_nil, hMandatory, hBlank⟩
    | some v =>
      have hMem : (c.name, v) ∈ members s :=
        hWrites.of_component hc (Component.mem_member_iff.mpr ⟨rfl, hWritten⟩)
      rw [Component.member, hWritten] at hUnder
      obtain ⟨w, hSingle, hw⟩ := hUnder.eq_singleton
      exact .inr ⟨_, hSingle, (hComponents c hc).restores _ v hWritten (hDepth _ hMem) held w hw⟩
  · rw [← (hParts p hp).knows, h.foreign_filter_part hp]
    refine (hParts p hp).restores (p.get s) (fun m hm => hDepth m (hWrites.of_part hp hm)) _ _ ?_
    have hFilter := hAlike.filter fun name => name ∈ p.object.known
    rwa [h.filter_part hNames hp s] at hFilter

end Members

/-! ### Depth and references -/

section Sources

variable (h : F.Lawful) (hWrites : F.Writes members) (hPieces : F.LawfulPieces references n)
include h hPieces

include hWrites in
theorem LawfulPieces.depthOfMembers_lt {held : Held} {v : Json} {a : σ}
    (ha : F.scheme.ofValue held v = .ok a) : Json.depthOfMembers (members a) < v.depth := by
  obtain ⟨hOwn, hPart⟩ := h.ofValue_inv ha
  have hPositive : 0 < v.depth := by
    cases v with
    | array items => exact Nat.succ_pos _
    | object ms => exact Nat.succ_pos _
    | _ => cases ha
  refine Nat.lt_of_le_of_lt (Json.depthOfMembers_le_iff.mpr fun m hm => ?_)
    (Nat.sub_one_lt_of_lt hPositive)
  rcases hWrites.mem_iff.mp hm with hm | hm
  · obtain ⟨c, hc, hm⟩ := List.mem_flatMap.mp hm
    have hWritten := (Component.mem_member_iff.mp hm).2
    rcases hOwn c hc with ⟨hMandatory, hBlank⟩ | ⟨w, hw, hDecode⟩
    · rw [hBlank] at hWritten
      rw [(hPieces.vacant c hc).depth hMandatory m.2 hWritten]
      exact Nat.zero_le _
    · have hLe := (hPieces.component c hc).depth_le held w _ m.2 hDecode hWritten
      exact hLe.trans (Nat.le_sub_one_of_lt (Json.depth_lt_of_mem_parts hw))
  · obtain ⟨p, hp, hm⟩ := List.mem_flatMap.mp hm
    obtain ⟨es, hes, hDecode⟩ := hPart p hp
    have hLe := (hPieces.part p hp).depth_le p.held es _ hDecode
    have hEntries : Json.depthOfMembers es ≤ v.depth - 1 :=
      Json.depthOfMembers_le_iff.mpr fun e he =>
        Nat.le_sub_one_of_lt (Json.depth_lt_of_mem_parts (hes e he))
    exact (Json.depth_le_depthOfMembers hm).trans (hLe.trans hEntries)

theorem LawfulPieces.exists_part_holds {held : Held} {v : Json} {a : σ}
    (ha : F.scheme.ofValue held v = .ok a) {r : Reference} (hr : r ∈ references a) :
    ∃ w ∈ v.parts, w.Holds r := by
  obtain ⟨hOwn, hPart⟩ := h.ofValue_inv ha
  rcases hPieces.references a r hr with ⟨c, hc, hr⟩ | ⟨p, hp, hr⟩
  · rcases hOwn c hc with ⟨hMandatory, hBlank⟩ | ⟨w, hw, hDecode⟩
    · rw [hBlank, (hPieces.vacant c hc).references hMandatory] at hr
      exact absurd hr List.not_mem_nil
    · exact ⟨w, hw, (hPieces.component c hc).of_value held w _ hDecode r hr⟩
  · obtain ⟨es, hes, hDecode⟩ := hPart p hp
    obtain ⟨e, he, hHolds⟩ := (hPieces.part p hp).of_members p.held es _ hDecode r hr
    exact ⟨e.2, hes e he, hHolds⟩

theorem LawfulPieces.outline_holds {levels : Nat} {o : Outline} {a : σ}
    (ha : F.scheme.ofText levels o = .ok a) {r : Reference} (hr : r ∈ references a) :
    o.Holds r := by
  obtain ⟨hOwn, hPart⟩ := h.ofText_inv ha
  rcases hPieces.references a r hr with ⟨c, hc, hr⟩ | ⟨p, hp, hr⟩
  · rcases hOwn c hc with ⟨hMandatory, hBlank⟩ | ⟨o', ho', hDecode⟩
    · rw [hBlank, (hPieces.vacant c hc).references hMandatory] at hr
      exact absurd hr List.not_mem_nil
    · exact .inside ho' ((hPieces.component c hc).of_text _ o' _ hDecode r hr)
  · obtain ⟨es, hes, hDecode⟩ := hPart p hp
    obtain ⟨e, he, hHolds⟩ := (hPieces.part p hp).of_members p.held es _ hDecode r hr
    obtain ⟨o', ho', hValue⟩ := hes e he
    exact .inside ho' (.aside hValue hHolds)

include hWrites

theorem object_lawful : (F.object members references).Lawful n where
  knows := h.ofMembers_filter_known hPieces.part
  names a m hm := hWrites.name_mem_known hPieces.part hm
  names_nodup := hWrites.names_nodup h hPieces.part
  tidy _ _ hm hDepth := hWrites.tidy hPieces.component hPieces.part hm hDepth
  restores a hDepth held ms hms :=
    hWrites.restores h hPieces.component hPieces.part (fun c hc => (hPieces.vacant c hc).absent)
      hDepth hms
  depth_le held es a ha :=
    Nat.le_of_lt_succ (hPieces.depthOfMembers_lt h hWrites (v := .object es) ha)
  of_members held es a ha r hr := by
    obtain ⟨w, hw, hHolds⟩ := hPieces.exists_part_holds h (v := .object es) ha hr
    obtain ⟨m, hm, rfl⟩ := List.mem_map.mp hw
    exact ⟨m, hm, hHolds⟩

/-- Members nest one level less than the object. -/
theorem codec_lawful_succ : (F.object members references).codec.Lawful (n + 1) where
  tidy a hDepth := .object (hWrites.names_nodup h hPieces.part a) fun m hm =>
    hWrites.tidy hPieces.component hPieces.part hm (Json.depth_lt_of_member hDepth m hm)
  restores a hDepth held v hv := by
    obtain ⟨ms, rfl, hms⟩ := hv.object
    exact hWrites.restores h hPieces.component hPieces.part
      (fun c hc => (hPieces.vacant c hc).absent) (Json.depth_lt_of_member hDepth) hms
  depth_le held v a ha := hPieces.depthOfMembers_lt h hWrites ha
  of_value held v a ha r hr := by
    obtain ⟨w, hw, hHolds⟩ := hPieces.exists_part_holds h ha hr
    exact .inside hw hHolds
  of_text levels o a ha r hr := hPieces.outline_holds h ha hr

theorem codec_lawful : (F.object members references).codec.Lawful n :=
  (codec_lawful_succ h hWrites hPieces).mono n.le_succ

end Sources

end Format

end AssetShell
