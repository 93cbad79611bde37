import AssetShell.Proofs.Interchange.Change

/-!
# Changes in an object

A change in an object puts one member in the place of another, adds one or permutes them all. The
values under each slot stay as they are up to a change that the slot does not see, and the members
that no slot asks for are kept.
-/

namespace AssetShell

namespace Outline

variable {p : Pattern} {n : Nat} {o o' : Outline} {slots : List Slot} {s : Slot}

/-! ## Values under names -/

section Under

variable {names : List String} {l r : List (Option String × Outline)}

theorem under_append (names : List String) (l r : List (Option String × Outline)) :
    under names (l ++ r) = under names l ++ under names r := by
  rw [under, List.filter_append, List.map_append]
  rfl

theorem under_cons_of_mem {name : String} (h : name ∈ names) :
    under names ((some name, o) :: r) = o :: under names r := by
  rw [under, List.filter_cons_of_pos (by simpa using h)]
  rfl

theorem under_cons_of_notMem {name : String} (h : name ∉ names) :
    under names ((some name, o) :: r) = under names r := by
  rw [under, List.filter_cons_of_neg (by simpa using h)]
  rfl

theorem under_perm {ms ns : List (Option String × Outline)} (names : List String)
    (h : ms.Perm ns) : (under names ms).Perm (under names ns) :=
  (h.filter _).map _

end Under

/-! ## Edits -/

/-- What stands between `l` and `r` in an object that is asked for `slots`, before and after a
change. -/
inductive Edit (slots : List Slot) (n : Nat) (l r : List (Option String × Outline)) :
    List (Option String × Outline) → List (Option String × Outline) → Prop
  | renamed {s : Slot} {name other : String} (o : Outline) (hs : s ∈ slots)
    (hName : name ∈ s.names) (hOther : other ∈ s.names) :
    Edit slots n l r [(some name, o)] [(some other, o)]
  | unknown {name : String} {o : Outline} (hNew : ∀ s ∈ slots, name ∉ s.names)
    (hValue : (o.value? n).isSome = true) : Edit slots n l r [] [(some name, o)]
  | null {s : Slot} {name : String} (hs : s ∈ slots) (hName : name ∈ s.names)
    (hNullable : s.pattern.isNullable = true) (hAbsent : under s.names (l ++ r) = []) :
    Edit slots n l r [] [(some name, .null)]
  | inside {s : Slot} {name : String} {o o' : Outline} (hs : s ∈ slots) (hName : name ∈ s.names)
    (h : Respelled s.pattern n o o') : Edit slots n l r [(some name, o)] [(some name, o')]

/-- What a change does to the values under a slot. -/
inductive Exchanged (n : Nat) (p : Pattern) : List Outline → List Outline → Prop
  | permuted {os os' : List Outline} (h : os.Perm os') : Exchanged n p os os'
  | respelled {os os' : List Outline} (h : List.Forall₂ (Respelled p n) os os') :
    Exchanged n p os os'
  | nullAdded (hp : p.isNullable = true) : Exchanged n p [] [.null]
  | nullRemoved (hp : p.isNullable = true) : Exchanged n p [.null] []

namespace Exchanged

variable {os os' : List Outline}

theorem refl (n : Nat) (p : Pattern) (os : List Outline) : Exchanged n p os os :=
  .permuted (.refl os)

theorem symm (h : Exchanged n p os os') : Exchanged n p os' os := by
  cases h with
  | permuted h => exact .permuted h.symm
  | respelled h => exact .respelled (h.flip.imp fun _ _ h => Respelled.symm h)
  | nullAdded hp => exact .nullRemoved hp
  | nullRemoved hp => exact .nullAdded hp

theorem carried (h : Exchanged n p os os') :
    Carried (value? n) (fun p => Respelled p n) p os os' := by
  cases h with
  | permuted h =>
    match os with
    | [] =>
      rw [List.nil_perm.mp h]
      exact .absent
    | [o] =>
      obtain rfl := List.singleton_perm.mp h
      exact .single (Respelled.refl p n o)
    | o :: o₂ :: r => exact .several
  | respelled h =>
    match os, os', h with
    | [], _, .nil => exact .absent
    | [o], [_], .cons h .nil => exact .single h
    | o :: o₂ :: r, _, _ => exact .several
  | nullAdded hp => exact .nullAdded hp rfl
  | nullRemoved hp => exact .nullRemoved hp rfl

end Exchanged

theorem slot_eq_of_name (hNodup : (slots.flatMap Slot.names).Nodup) {s s' : Slot} (hs : s ∈ slots)
    (hs' : s' ∈ slots) {name : String} (hName : name ∈ s.names) (hName' : name ∈ s'.names) :
    s = s' := by
  induction slots with
  | nil => exact absurd hs List.not_mem_nil
  | cons t r ih =>
    rw [List.flatMap_cons, List.nodup_append] at hNodup
    obtain ⟨-, hRest, hApart⟩ := hNodup
    rcases List.mem_cons.mp hs with rfl | hIn <;> rcases List.mem_cons.mp hs' with rfl | hIn'
    · rfl
    · exact absurd rfl (hApart name hName name (List.mem_flatMap.mpr ⟨s', hIn', hName'⟩))
    · exact absurd rfl (hApart name hName' name (List.mem_flatMap.mpr ⟨s, hIn, hName⟩))
    · exact ih hRest hIn hIn'

namespace Edit

variable {l r a b : List (Option String × Outline)}

theorem exchanged (h : Edit slots n l r a b) (hNodup : (slots.flatMap Slot.names).Nodup)
    (hs : s ∈ slots) :
    Exchanged n s.pattern (under s.names (l ++ a ++ r)) (under s.names (l ++ b ++ r)) := by
  have hNil : under s.names [] = [] := rfl
  simp only [under_append]
  cases h with
  | @renamed s₀ name other o hs₀ hName hOther =>
    by_cases hMem : name ∈ s.names
    · obtain rfl := slot_eq_of_name hNodup hs hs₀ hMem hName
      rw [under_cons_of_mem hName, under_cons_of_mem hOther]
      exact .refl _ _ _
    · have hMem' : other ∉ s.names := fun hOther' =>
        hMem (slot_eq_of_name hNodup hs hs₀ hOther' hOther ▸ hName)
      rw [under_cons_of_notMem hMem, under_cons_of_notMem hMem']
      exact .refl _ _ _
  | unknown hNew =>
    rw [under_cons_of_notMem (hNew s hs)]
    exact .refl _ _ _
  | @null s₀ name hs₀ hName hNullable hAbsent =>
    by_cases hMem : name ∈ s.names
    · obtain rfl := slot_eq_of_name hNodup hs hs₀ hMem hName
      rw [under_append, List.append_eq_nil_iff] at hAbsent
      rw [under_cons_of_mem hName, hAbsent.1, hAbsent.2, hNil]
      exact .nullAdded hNullable
    · rw [under_cons_of_notMem hMem]
      exact .refl _ _ _
  | @inside s₀ name o o' hs₀ hName h =>
    by_cases hMem : name ∈ s.names
    · obtain rfl := slot_eq_of_name hNodup hs hs₀ hMem hName
      rw [under_cons_of_mem hName, under_cons_of_mem hName, hNil]
      have hRefl (os : List Outline) : List.Forall₂ (Respelled s.pattern n) os os :=
        List.forall₂_same.mpr fun o _ => .refl _ _ o
      refine .respelled (List.rel_append (List.rel_append (hRefl _) (.cons h .nil)) (hRefl _))
    · rw [under_cons_of_notMem hMem, under_cons_of_notMem hMem]
      exact .refl _ _ _

end Edit

/-! ### Members that are kept -/

theorem StandsFor.refl (slots : List Slot) (n : Nat) (m : Option String × Outline) :
    StandsFor slots n m m :=
  ⟨id, fun _ _ => rfl, id, id⟩

theorem kept_of_perm {ms ns : List (Option String × Outline)} (h : ms.Perm ns) :
    Kept slots n ms ns :=
  fun m hm => .inr ⟨m, h.mem_iff.mpr hm, .refl slots n m⟩

theorem kept_of_middle {l r a b : List (Option String × Outline)}
    (h : ∀ m ∈ b, (m.1.isSome = true ∧ (m.2.value? n).isSome = true) ∨
      ∃ m' ∈ a, StandsFor slots n m m') : Kept slots n (l ++ a ++ r) (l ++ b ++ r) := by
  intro m hm
  rw [List.append_assoc, List.mem_append, List.mem_append] at hm
  have hSame (hm : m ∈ l ++ a ++ r) : ∃ m' ∈ l ++ a ++ r, StandsFor slots n m m' :=
    ⟨m, hm, .refl slots n m⟩
  rcases hm with hm | hm | hm
  · exact .inr (hSame (by simp [hm]))
  · refine (h m hm).imp_right ?_
    rintro ⟨m', hm', hStands⟩
    exact ⟨m', by simp [hm'], hStands⟩
  · exact .inr (hSame (by simp [hm]))

theorem standsFor_of_respelled {name : String} (h : Respelled p n o o') :
    StandsFor slots n (some name, o') (some name, o) :=
  ⟨id, fun _ _ => rfl, h.isWhole_iff.mpr, h.isSome_value?_iff.mpr⟩

theorem standsFor_of_names (hNodup : (slots.flatMap Slot.names).Nodup) (hs : s ∈ slots)
    {name other : String} (hName : name ∈ s.names) (hOther : other ∈ s.names) :
    StandsFor slots n (some other, o) (some name, o) := by
  refine ⟨id, fun s' hs' => ?_, id, id⟩
  have hSame : other ∈ s'.names ↔ name ∈ s'.names := by
    constructor
    · intro h
      obtain rfl := slot_eq_of_name hNodup hs hs' hOther h
      exact hName
    · intro h
      obtain rfl := slot_eq_of_name hNodup hs hs' hName h
      exact hOther
  simp [hSame]

namespace Edit

variable {l r a b : List (Option String × Outline)}

theorem kept (h : Edit slots n l r a b) (hNodup : (slots.flatMap Slot.names).Nodup) :
    Kept slots n (l ++ a ++ r) (l ++ b ++ r) ∧ Kept slots n (l ++ b ++ r) (l ++ a ++ r) := by
  constructor
  · refine kept_of_middle fun m hm => ?_
    cases h with
    | renamed o hs hName hOther =>
      rw [List.mem_singleton.mp hm]
      exact .inr ⟨_, List.mem_cons_self, standsFor_of_names hNodup hs hName hOther⟩
    | unknown hNew hValue =>
      rw [List.mem_singleton.mp hm]
      exact .inl ⟨rfl, hValue⟩
    | null =>
      rw [List.mem_singleton.mp hm]
      exact .inl ⟨rfl, rfl⟩
    | inside hs hName h =>
      rw [List.mem_singleton.mp hm]
      exact .inr ⟨_, List.mem_cons_self, standsFor_of_respelled h⟩
  · refine kept_of_middle fun m hm => ?_
    cases h with
    | renamed o hs hName hOther =>
      rw [List.mem_singleton.mp hm]
      exact .inr ⟨_, List.mem_cons_self, standsFor_of_names hNodup hs hOther hName⟩
    | inside hs hName h =>
      rw [List.mem_singleton.mp hm]
      exact .inr ⟨_, List.mem_cons_self, standsFor_of_respelled h.symm⟩
    | _ => exact absurd hm List.not_mem_nil

end Edit

/-! ### Objects before and after a change -/

section Objects

variable {ms ns l r a b : List (Option String × Outline)}

/-- Every object that is asked for some slots, before or after a change, answers the same. -/
def Exchanges (p : Pattern) (n : Nat) (ms ns : List (Option String × Outline)) : Prop :=
  ∀ slots, p.Asks (value? n) (under [Tagged.tagName] ms) slots ∨
    p.Asks (value? n) (under [Tagged.tagName] ns) slots →
    (Kept slots n ms ns ∧ Kept slots n ns ms) ∧
      ∀ s ∈ slots, Exchanged n s.pattern (under s.names ms) (under s.names ns)

theorem Exchanges.symm (h : Exchanges p n ms ns) : Exchanges p n ns ms := fun slots hAsks =>
  have hSlots := h slots hAsks.symm
  ⟨hSlots.1.symm, fun s hs => (hSlots.2 s hs).symm⟩

theorem exchanges_of_perm (h : ms.Perm ns) : Exchanges p n ms ns := fun _ _ =>
  ⟨⟨kept_of_perm h, kept_of_perm h.symm⟩, fun s _ => .permuted (under_perm s.names h)⟩

theorem exchanges_of_edits
    (h : ∀ slots, p.Asks (value? n) (under [Tagged.tagName] (l ++ a ++ r)) slots ∨
      p.Asks (value? n) (under [Tagged.tagName] (l ++ b ++ r)) slots → Edit slots n l r a b) :
    Exchanges p n (l ++ a ++ r) (l ++ b ++ r) := by
  intro slots hAsks
  have hNodup : (slots.flatMap Slot.names).Nodup := hAsks.elim (·.names_nodup) (·.names_nodup)
  have hEdit := h slots hAsks
  exact ⟨hEdit.kept hNodup, fun s hs => hEdit.exchanged hNodup hs⟩

theorem Edit.tags (h : Edit slots n l r a b) (hNodup : (slots.flatMap Slot.names).Nodup)
    (hTag : .tag ∈ slots) {t : Outline} (ht : under [Tagged.tagName] (l ++ a ++ r) = [t]) :
    under [Tagged.tagName] (l ++ b ++ r) = [t] := by
  have hExchanged : Exchanged n .plain (under [Tagged.tagName] (l ++ a ++ r))
      (under [Tagged.tagName] (l ++ b ++ r)) := h.exchanged hNodup hTag
  rw [ht] at hExchanged
  generalize under [Tagged.tagName] (l ++ b ++ r) = os at hExchanged
  cases hExchanged with
  | permuted h => exact (List.singleton_perm.mp h).symm
  | respelled h =>
    obtain _ | ⟨hSame, _ | _⟩ := h
    rw [Respelled.eq_of_plain hSame]
  | nullRemoved hp => cases hp

/-- An edit leaves the tag alone, so the object is asked for the same slots after it. -/
theorem Edit.exchanges (h : Edit slots n l r a b)
    (hAsks : p.Asks (value? n) (under [Tagged.tagName] (l ++ a ++ r)) slots) :
    Exchanges p n (l ++ a ++ r) (l ++ b ++ r) := by
  -- The tag is a slot by itself and holds a plain value, which no edit changes.
  have hAfter : p.Asks (value? n) (under [Tagged.tagName] (l ++ b ++ r)) slots := by
    cases hAsks with
    | record k => exact .record k
    | @tagged _ t v k hTag hView hSays =>
      exact .tagged (h.tags k.names_nodup List.mem_cons_self hTag) hView hSays
  refine exchanges_of_edits fun slots' hAsks' => ?_
  rcases hAsks' with hAsks' | hAsks'
  · exact hAsks'.unique hAsks ▸ h
  · exact hAsks'.unique hAfter ▸ h

theorem exchanges_of_unknown {name : String}
    (hNew : ¬ p.Knows (value? n) (under [Tagged.tagName] (l ++ [] ++ r)) name)
    (hValue : (o.value? n).isSome = true) :
    Exchanges p n (l ++ [] ++ r) (l ++ [(some name, o)] ++ r) := by
  refine exchanges_of_edits fun slots hAsks => ?_
  -- `Knows` counts the tag in, so the new member cannot be what made the object tagged.
  have hBefore : p.Asks (value? n) (under [Tagged.tagName] (l ++ [] ++ r)) slots := by
    rcases hAsks with hAsks | hAsks
    · exact hAsks
    · cases hAsks with
      | record k => exact .record k
      | @tagged variants t v k hTag hView hSays =>
        have hName : name ∉ [Tagged.tagName] := by
          intro hTagName
          obtain rfl := List.mem_singleton.mp hTagName
          exact hNew (.tag variants)
        rw [under_append, under_append, under_cons_of_notMem hName, ← under_append,
          ← under_append] at hTag
        exact .tagged hTag hView hSays
  exact .unknown (fun s hs hName => hNew (.slot hBefore hs hName)) hValue

/-- What a change does to an outline of which an object may be asked: to one position of an array,
or to the members of an object. -/
theorem Change.cases_of_isObject (hp : p.isObject = true) (h : Change p n o o') :
    (∃ k s l o₁ o₂ r closed, p = .record k ∧ k.slots[l.length]? = some s ∧
      o = .array (l ++ o₁ :: r) closed ∧ o' = .array (l ++ o₂ :: r) closed ∧
      Change s.pattern (n - 1) o₁ o₂) ∨
    ∃ ms ns closed, o = .object ms closed ∧ o' = .object ns closed ∧
      Exchanges p (n - 1) ms ns := by
  have hNone (l r : List (Option String × Outline)) : l ++ r = l ++ [] ++ r := by
    rw [List.append_nil]
  cases h with
  | marked | present | item => cases hp
  | position l r closed hs h => exact .inl ⟨_, _, l, _, _, r, closed, rfl, hs, rfl, rfl, h⟩
  | permuted _ closed _ h => exact .inr ⟨_, _, closed, rfl, rfl, exchanges_of_perm h⟩
  | renamed l r closed hAsks hs hName hOther =>
    refine .inr ⟨_, _, closed, rfl, rfl, ?_⟩
    rw [List.append_cons] at hAsks
    rw [List.append_cons, List.append_cons l (some _, _) r]
    exact (Edit.renamed _ hs hName hOther).exchanges hAsks
  | unknown l r closed _ hNew hValue =>
    refine .inr ⟨_, _, closed, rfl, rfl, ?_⟩
    rw [hNone] at hNew
    rw [hNone, List.append_cons]
    exact exchanges_of_unknown hNew hValue
  | null l r closed hAsks hs hName hNullable hAbsent =>
    refine .inr ⟨_, _, closed, rfl, rfl, ?_⟩
    rw [hNone] at hAsks
    rw [hNone, List.append_cons]
    exact (Edit.null hs hName hNullable hAbsent).exchanges hAsks
  | inside l r closed hAsks hs hName h =>
    refine .inr ⟨_, _, closed, rfl, rfl, ?_⟩
    rw [List.append_cons] at hAsks
    rw [List.append_cons, List.append_cons l (some _, _) r]
    exact (Edit.inside hs hName (.inr (.inl h))).exchanges hAsks

theorem Respelled.cases_of_isObject (hp : p.isObject = true) (h : Respelled p n o o') :
    o' = o ∨
    (∃ k s l o₁ o₂ r closed, p = .record k ∧ k.slots[l.length]? = some s ∧
      o = .array (l ++ o₁ :: r) closed ∧ o' = .array (l ++ o₂ :: r) closed ∧
      Respelled s.pattern (n - 1) o₁ o₂) ∨
    ∃ ms ns closed, o = .object ms closed ∧ o' = .object ns closed ∧
      Exchanges p (n - 1) ms ns := by
  refine Or.imp id (fun h => ?_) h
  rcases h with h | h
  · rcases h.cases_of_isObject hp with
      ⟨k, s, l, o₁, o₂, r, closed, hk, hs, hLeft, hRight, h⟩ | hObject
    · exact .inl ⟨k, s, l, o₁, o₂, r, closed, hk, hs, hLeft, hRight, .inr (.inl h)⟩
    · exact .inr hObject
  · rcases h.cases_of_isObject hp with
      ⟨k, s, l, o₁, o₂, r, closed, hk, hs, hLeft, hRight, h⟩ |
      ⟨ns, ms, closed, hLeft, hRight, hExchanges⟩
    · exact .inl ⟨k, s, l, o₂, o₁, r, closed, hk, hs, hRight, hLeft, .inr (.inr h)⟩
    · exact .inr ⟨ms, ns, closed, hRight, hLeft, hExchanges.symm⟩

end Objects

end Outline

end AssetShell
