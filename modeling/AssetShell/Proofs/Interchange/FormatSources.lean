import AssetShell.Proofs.Interchange.Format
import Mathlib.Data.List.Nodup

/-!
# Where the parts of a record come from

Whatever a record was read from, a value or a text, an object or an array: each of its components is
blank or was decoded from a part of the source, and each of its blocks was decoded from entries
whose values are parts of the source.
-/

namespace AssetShell

namespace Format

variable {σ ν : Type} {F : Format σ}

theorem sequence_cons_eq_ok_iff {R : Reader ν} {c : Component σ} {cs : List (Component σ)} {v : ν}
    {vs : List ν} {s t : σ} :
    Scheme.sequence (fun f v => R.read f.decoder v) ((c :: cs).map Component.field) (v :: vs) s
      = .ok t ↔
    ∃ b, R.read c.decoder v = .ok b ∧
      Scheme.sequence (fun f v => R.read f.decoder v) (cs.map Component.field) vs (c.set s b)
        = .ok t := by
  have hRead : R.read c.field.decoder v = (R.read c.decoder v).map fun b s => c.set s b :=
    R.read_map ..
  rw [List.map_cons, Scheme.sequence, hRead]
  constructor
  · intro h
    obtain ⟨_, hSet, h⟩ := exists_of_bind_eq_ok h
    obtain ⟨b, hb, rfl⟩ := exists_of_map_eq_ok hSet
    exact ⟨b, hb, h⟩
  · rintro ⟨b, hb, h⟩
    rw [hb]
    exact h

theorem get_of_sequence {R : Reader ν} {γ : Type} {g : σ → γ} {cs : List (Component σ)}
    {vs : List ν} {s t : σ} (hg : ∀ c ∈ cs, ∀ s b, g (c.set s b) = g s)
    (h : Scheme.sequence (fun f v => R.read f.decoder v) (cs.map Component.field) vs s = .ok t) :
    g t = g s := by
  induction cs generalizing vs s with
  | nil => cases vs <;> cases h; rfl
  | cons c r ih =>
    rw [List.forall_mem_cons] at hg
    cases vs with
    | nil =>
      rw [List.map_cons, Scheme.sequence] at h
      split at h
      · cases h
      · exact ih hg.2 h
    | cons v vs =>
      obtain ⟨b, -, h⟩ := sequence_cons_eq_ok_iff.mp h
      exact (ih hg.2 h).trans (hg.1 s b)

theorem sequence_inv {R : Reader ν} {cs : List (Component σ)} {vs : List ν} {s t : σ}
    (hSet : ∀ c ∈ cs, ∀ s b, c.get (c.set s b) = b)
    (hOther : cs.Pairwise fun c d =>
      (∀ s b, c.get (d.set s b) = c.get s) ∧ ∀ s b, d.get (c.set s b) = d.get s)
    (h : Scheme.sequence (fun f v => R.read f.decoder v) (cs.map Component.field) vs s = .ok t) :
    ∀ c ∈ cs, (c.mandatory = false ∧ c.get t = c.get s) ∨
      ∃ v ∈ vs, R.read c.decoder v = .ok (c.get t) := by
  induction cs generalizing vs s with
  | nil => exact fun c hc => absurd hc List.not_mem_nil
  | cons c r ih =>
    rw [List.forall_mem_cons] at hSet
    rw [List.pairwise_cons] at hOther
    cases vs with
    | nil =>
      rw [List.map_cons, Scheme.sequence] at h
      split at h
      · cases h
      · rename_i hMandatory
        refine List.forall_mem_cons.mpr ⟨.inl ⟨?_, ?_⟩, ih hSet.2 hOther.2 h⟩
        · exact Bool.eq_false_iff.mpr hMandatory
        · exact get_of_sequence (fun d hd => (hOther.1 d hd).1) h
    | cons v vs =>
      obtain ⟨b, hb, h⟩ := sequence_cons_eq_ok_iff.mp h
      have hFirst : c.get t = b :=
        (get_of_sequence (fun d hd => (hOther.1 d hd).1) h).trans (hSet.1 s b)
      refine List.forall_mem_cons.mpr ⟨.inr ⟨v, List.mem_cons_self, hFirst ▸ hb⟩, fun d hd => ?_⟩
      refine (ih hSet.2 hOther.2 h d hd).imp ?_ ?_
      · exact fun ⟨hMandatory, hGet⟩ => ⟨hMandatory, hGet.trans ((hOther.1 d hd).2 s b)⟩
      · exact fun ⟨w, hw, hDecode⟩ => ⟨w, List.mem_cons_of_mem _ hw, hDecode⟩

theorem Lawful.components_pairwise (h : F.Lawful) : F.components.Pairwise fun c d =>
    (∀ s b, c.get (d.set s b) = c.get s) ∧ ∀ s b, d.get (c.set s b) = d.get s := by
  have hNames := (List.nodup_flatMap.mp h.ownNames_nodup).2
  refine hNames.imp_of_mem fun {c d} hc hd hDisjoint => ?_
  have hNe : c.name ≠ d.name := fun hEq =>
    hDisjoint List.mem_cons_self (hEq ▸ List.mem_cons_self)
  exact ⟨h.get_set_other c hc d hd hNe, h.get_set_other d hd c hc hNe.symm⟩

theorem mem_of_under {c : Component σ} {ms : List (String × ν)} {m : String × ν}
    (h : under c ms = [m]) : m ∈ ms :=
  List.mem_of_mem_filter (h ▸ List.mem_cons_self : m ∈ under c ms)

theorem Lawful.ofValue_inv (h : F.Lawful) {held : Held} {v : Json} {a : σ}
    (ha : F.scheme.ofValue held v = .ok a) :
    (∀ c ∈ F.components, (c.mandatory = false ∧ c.get a = c.get F.blank) ∨
      ∃ w ∈ v.parts, c.decoder.value held w = .ok (c.get a)) ∧
    ∀ p ∈ F.parts, ∃ es : List (String × Json), (∀ e ∈ es, e.2 ∈ v.parts) ∧
      p.object.scheme.ofMembers p.held es = .ok (p.get a) := by
  cases v with
  | object ms =>
    have hReads := h.ofMembers_eq_ok_iff.mp ha
    refine ⟨fun c hc => Or.imp And.right ?_ (hReads.component c hc), fun p hp => ?_⟩
    · exact fun ⟨m, hm, hDecode⟩ => ⟨m.2, List.mem_map_of_mem (mem_of_under hm), hDecode⟩
    · exact ⟨_, fun e he => List.mem_map_of_mem (List.mem_of_mem_filter he), hReads.part p hp⟩
  | array items =>
    simp only [Scheme.ofValue] at ha
    split at ha
    · rename_i hBlocks
      refine ⟨sequence_inv (R := .value held) h.get_set h.components_pairwise ha, fun p hp => ?_⟩
      have hParts : F.parts = [] := by simpa [scheme] using hBlocks
      rw [hParts] at hp
      exact absurd hp List.not_mem_nil
    · cases ha
  | _ => cases ha

def named (m : String × ν) : Option String × ν := (some m.1, m.2)

theorem named_injective : Function.Injective (@named ν) := by
  rintro ⟨name, v⟩ ⟨other, w⟩ h
  cases h
  rfl

theorem exists_eq_map_named {members : List (Option String × ν)}
    (h : ∀ m ∈ members, m.1.isSome = true) : ∃ ms : List (String × ν), members = ms.map named := by
  induction members with
  | nil => exact ⟨[], rfl⟩
  | cons m r ih =>
    rw [List.forall_mem_cons] at h
    obtain ⟨ms, rfl⟩ := ih h.2
    obtain ⟨name, hName⟩ := Option.isSome_iff_exists.mp h.1
    exact ⟨(name, m.2) :: ms, by rw [List.map_cons, named, ← hName]⟩

/-- Entries without a name end a run, so a run that ends well is one over entries with names. -/
theorem foldlM_eq_ok_iff {α : Type} {f : α → Option String × ν → Decoded α}
    {g : α → String × ν → Decoded α} (hSome : ∀ p m, f p (named m) = g p m)
    (hNone : ∀ p v q, f p (none, v) ≠ .ok q) {members : List (Option String × ν)} {p q : α} :
    members.foldlM f p = .ok q ↔
      ∃ ms : List (String × ν), members = ms.map named ∧ ms.foldlM g p = .ok q := by
  constructor
  · intro h
    induction members generalizing p with
    | nil => exact ⟨[], rfl, h⟩
    | cons m r ih =>
      obtain ⟨name, v⟩ := m
      rw [List.foldlM_cons] at h
      obtain ⟨p', hStep, h⟩ := exists_of_bind_eq_ok h
      obtain ⟨ms, rfl, hRun⟩ := ih h
      cases name with
      | none => exact absurd hStep (hNone p v p')
      | some name =>
        refine ⟨(name, v) :: ms, rfl, ?_⟩
        rw [List.foldlM_cons, ← hSome p (name, v), named, hStep]
        exact hRun
  · rintro ⟨ms, rfl, h⟩
    simpa only [List.foldlM_map, hSome] using h

theorem value?_of_keepText {levels : Nat} {o : Outline} {v : Json} (hBlocks : F.parts ≠ [])
    (h : F.scheme.keepText levels o = .ok v) : o.value? levels = some v := by
  have hSome : F.scheme.blocks.isEmpty = false := by simpa [scheme] using hBlocks
  rw [Scheme.keepText, hSome] at h
  cases hValue : o.value? levels with
  | none => rw [hValue] at h; cases h
  | some w => rw [hValue] at h; cases h; rfl

variable {levels : Nat} {a : σ}

/-- An object in a text is read entry by entry, once all its entries have names. -/
theorem Lawful.ofText_object_eq_ok_iff (h : F.Lawful) {members : List (Option String × Outline)}
    {closed : Bool} :
    F.scheme.ofText levels (.object members closed) = .ok a ↔
      closed = true ∧ 0 < levels ∧ ∃ ms es, members = ms.map named ∧
        F.Yields (.text F.scheme (levels - 1)) ms es a := by
  have hRun {q : Progress σ} :
      members.foldlM (F.scheme.textEntry (levels - 1)) F.scheme.start = .ok q ↔
        ∃ ms, members = ms.map named ∧ F.run (.text F.scheme (levels - 1)) ms = .ok q :=
    foldlM_eq_ok_iff (fun _ _ => rfl) (fun _ _ _ h => by cases h)
  constructor
  · intro ha
    simp only [Scheme.ofText] at ha
    split at ha
    · cases ha
    · rename_i hLevels
      obtain ⟨q, hFold, ha⟩ := exists_of_bind_eq_ok ha
      split at ha
      · rename_i hClosed
        obtain ⟨ms, hNamed, hMembers⟩ := hRun.mp hFold
        obtain ⟨es, hYields⟩ := h.run_eq_ok_iff.mp (by rw [hMembers]; exact ha)
        exact ⟨hClosed, Nat.pos_of_ne_zero hLevels, ms, es, hNamed, hYields⟩
      · cases ha
  · rintro ⟨rfl, hLevels, ms, es, hNamed, hYields⟩
    obtain ⟨q, hMembers, ha⟩ := exists_of_bind_eq_ok (h.run_eq_ok_iff.mpr ⟨es, hYields⟩)
    simp only [Scheme.ofText, if_neg (Nat.ne_of_gt hLevels), hRun.mpr ⟨ms, hNamed, hMembers⟩]
    exact ha

/-- An array in a text is read in the order of the components, if there is nothing else. -/
theorem ofText_array_eq_ok_iff {items : List Outline} {closed : Bool} :
    F.scheme.ofText levels (.array items closed) = .ok a ↔
      closed = true ∧ 0 < levels ∧ F.parts = [] ∧
        Scheme.sequence (fun f v => f.decoder.text (levels - 1) v) F.scheme.fields items
          F.scheme.blank = .ok a := by
  have hBlocks : F.scheme.blocks.isEmpty = false ↔ F.parts ≠ [] := by simp [scheme]
  simp only [Scheme.ofText, hBlocks]
  constructor
  · intro ha
    split at ha
    · cases ha
    · rename_i hLevels
      obtain ⟨hLevels, hParts⟩ := not_or.mp hLevels
      obtain ⟨t, hItems, ha⟩ := exists_of_bind_eq_ok ha
      split at ha
      · rename_i hClosed
        cases ha
        exact ⟨hClosed, Nat.pos_of_ne_zero hLevels, not_not.mp hParts, hItems⟩
      · cases ha
  · rintro ⟨rfl, hLevels, hParts, hItems⟩
    rw [if_neg (not_or.mpr ⟨Nat.ne_of_gt hLevels, not_not.mpr hParts⟩), hItems]
    rfl

theorem Lawful.ofText_inv (h : F.Lawful) {o : Outline} (ha : F.scheme.ofText levels o = .ok a) :
    (∀ c ∈ F.components, (c.mandatory = false ∧ c.get a = c.get F.blank) ∨
      ∃ p ∈ o.parts, c.decoder.text (levels - 1) p = .ok (c.get a)) ∧
    ∀ p ∈ F.parts, ∃ es : List (String × Json),
      (∀ e ∈ es, ∃ o' ∈ o.parts, o'.value? (levels - 1) = some e.2) ∧
        p.object.scheme.ofMembers p.held es = .ok (p.get a) := by
  cases o with
  | object members closed =>
    obtain ⟨-, -, ms, es, rfl, hYields⟩ := h.ofText_object_eq_ok_iff.mp ha
    have hMem : ∀ m ∈ ms, m.2 ∈ (Outline.object (ms.map named) closed).parts := by
      intro m hm
      rw [Outline.parts, List.map_map]
      exact List.mem_map_of_mem hm
    refine ⟨fun c hc => Or.imp And.right ?_ (hYields.component c hc), fun p hp =>
      ⟨es, fun e he => ?_, hYields.part p hp⟩⟩
    · exact fun ⟨m, hSingle, hRead⟩ => ⟨m.2, hMem m (mem_of_under hSingle), hRead⟩
    · obtain ⟨m, hm, -, hKeep⟩ := exists_of_forall₂ hYields.aside he
      exact ⟨m.2, hMem m (List.mem_of_mem_filter hm),
        value?_of_keepText (List.ne_nil_of_mem hp) hKeep⟩
  | array items closed =>
    obtain ⟨-, -, hParts, hItems⟩ := ofText_array_eq_ok_iff.mp ha
    refine ⟨sequence_inv (R := .text F.scheme (levels - 1)) h.get_set h.components_pairwise hItems,
      fun p hp => ?_⟩
    rw [hParts] at hp
    exact absurd hp List.not_mem_nil
  | _ => cases ha

end Format

end AssetShell
