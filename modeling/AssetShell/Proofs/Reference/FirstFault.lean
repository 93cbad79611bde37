import AssetShell.Proofs.Reference.ChainScans
import AssetShell.Proofs.Selection

/-!
# The first fault of a chain

The rules of the grammar are asked in a fixed order. A chain of the grammar has no fault, and the
fault of any other chain is the broken rule that is asked first.
-/

namespace AssetShell

namespace Chain

variable {kind : ReferenceKind} {keys : List Key} {k : Key} {r : List Key}

theorem modelFault?_selects (keys : List Key) :
    Selects ChainFault.rank (fun f => Breaks .model keys f ∧ 2 ≤ f.rank ∧ f.rank ≤ 5)
      (modelFault? keys) := by
  have hForeign : Selects ChainFault.rank _ (foreignKey? 1 keys.tail) :=
    .of_eq_some_iff foreignKey?_iff_breaks
  have hFragment : Selects ChainFault.rank _ (fragmentFault? keys) :=
    .of_eq_some_iff fragmentFault?_iff_breaks
  have hIndex : Selects ChainFault.rank _ (indexFault? 0 keys) :=
    .of_eq_some_iff indexFault?_iff_breaks
  have hFragmentIndex := hFragment.or hIndex fun f g hf hg => by omega
  have hAll := hForeign.or hFragmentIndex fun f g hf hg => by omega
  refine hAll.congr fun f => ?_
  constructor
  · rintro (⟨h, hf⟩ | ⟨h, hf⟩ | ⟨h, hf⟩) <;> exact ⟨h, by omega, by omega⟩
  · rintro ⟨h, hLow, hHigh⟩
    by_cases hTwo : f.rank = 2
    · exact .inl ⟨h, hTwo⟩
    · by_cases hFive : f.rank = 5
      · exact .inr (.inr ⟨h, hFive⟩)
      · exact .inr (.inl ⟨h, by omega⟩)

theorem externalFault?_selects {last : Key} (hLong : 1 < keys.length)
    (hLast : keys.getLast? = some last) :
    Selects ChainFault.rank (fun f => Breaks .external keys f ∧ 2 ≤ f.rank)
      (externalFault? last) := by
  have hType : typeAt? keys (keys.length - 1) = some last.type := by
    rw [typeAt?, ← List.getLast?_eq_getElem?, hLast]
    rfl
  refine Selects.of_eq_some_iff fun f => ?_
  unfold externalFault?
  constructor
  · intro h
    split at h
    · cases h
    · rename_i hOther
      cases h
      simp only [KeyType.externalEnds, List.mem_cons, List.not_mem_nil, or_false,
        not_or] at hOther
      exact ⟨⟨rfl, hLong, hType, hOther⟩, by simp [ChainFault.rank]⟩
  · rintro ⟨hBreaks, hRank⟩
    cases f with
    | empty => cases hRank
    | first found t => simp [ChainFault.rank] at hRank
    | externalEnd t =>
      obtain ⟨-, -, ht, hGlobal, hFragment⟩ := hBreaks
      obtain rfl : last.type = t := Option.some.inj (hType.symm.trans ht)
      simp [KeyType.externalEnds, hGlobal, hFragment]
    | _ => cases hBreaks.1

theorem two_le_rank (hRoot : k.type ∈ kind.roots) {f : ChainFault}
    (h : Breaks kind (k :: r) f) : 2 ≤ f.rank := by
  cases f with
  | empty => cases h
  | first found t =>
    obtain ⟨-, ht, hOther⟩ := h
    cases ht
    exact absurd hRoot hOther
  | _ => simp [ChainFault.rank]

theorem not_breaks_single (hRoot : k.type ∈ kind.roots) (f : ChainFault) :
    ¬ Breaks kind [k] f := by
  intro h
  cases f with
  | empty => cases h
  | first found t =>
    obtain ⟨-, ht, hOther⟩ := h
    cases ht
    exact hOther hRoot
  | notAFragment i t =>
    have := lt_length_of_typeAt? h.2.2.1
    simp only [List.length_singleton] at this
    exact absurd h.2.1 (by omega)
  | fragmentNotLast i => exact absurd h.2.2 (by simp)
  | fragmentHolder t =>
    obtain ⟨-, i, -, hLength, -⟩ := h
    simp at hLength
  | listIndex i value => simp [Breaks, BadIndexAt] at h
  | externalEnd t => exact absurd h.2.1 (by simp)

/-- If the first key is refused, nothing else is asked. -/
theorem first_selects (hRoot : k.type ∉ kind.roots) :
    Selects ChainFault.rank (Breaks kind (k :: r)) (some (.first kind k.type)) := by
  have hBreaks : Breaks kind (k :: r) (.first kind k.type) := ⟨rfl, rfl, hRoot⟩
  intro f
  constructor
  · intro h
    cases h
    refine ⟨hBreaks, fun g hg => ?_⟩
    cases g with
    | empty => cases hg
    | _ => simp [ChainFault.rank]
  · rintro ⟨h, hLeast⟩
    have hRank := hLeast _ hBreaks
    cases f with
    | empty => cases h
    | first found t =>
      obtain ⟨rfl, ht, -⟩ := h
      cases ht
      rfl
    | _ => simp [ChainFault.rank] at hRank

theorem tail_selects {k' : Key} (hRoot : k.type ∈ kind.roots) :
    Selects ChainFault.rank (Breaks kind (k :: k' :: r)) (fault? kind (k :: k' :: r)) := by
  obtain ⟨last, hLast⟩ : ∃ last, (k' :: r).getLast? = some last := by
    simp [List.getLast?_cons]
  cases kind with
  | model =>
    have hFault : fault? .model (k :: k' :: r) = modelFault? (k :: k' :: r) := by
      simp [fault?, hRoot, hLast]
    rw [hFault]
    refine (modelFault?_selects _).congr fun f => ⟨And.left, fun hBreaks => ?_⟩
    refine ⟨hBreaks, two_le_rank hRoot hBreaks, ?_⟩
    cases f with
    | externalEnd t => cases hBreaks.1
    | _ => simp [ChainFault.rank]
  | external =>
    have hFault : fault? .external (k :: k' :: r) = externalFault? last := by
      simp [fault?, hRoot, hLast]
    rw [hFault]
    have hEnd : (k :: k' :: r).getLast? = some last := by
      rw [List.getLast?_cons_cons, hLast]
    refine (externalFault?_selects (by simp) hEnd).congr fun f => ?_
    exact ⟨And.left, fun hBreaks => ⟨hBreaks, two_le_rank hRoot hBreaks⟩⟩

/-- The fault of a chain is the broken rule that is asked first. -/
theorem fault?_selects (kind : ReferenceKind) (keys : List Key) :
    Selects ChainFault.rank (Breaks kind keys) (fault? kind keys) := by
  cases keys with
  | nil =>
    refine Selects.of_eq_some_iff fun f => ?_
    cases f <;> simp [fault?, Breaks, LastFragmentAt, BadIndexAt]
  | cons k r =>
    by_cases hRoot : k.type ∈ kind.roots
    · cases r with
      | nil =>
        refine Selects.of_eq_some_iff fun f => ?_
        simp [fault?, hRoot, not_breaks_single hRoot]
      | cons k' r => exact tail_selects hRoot
    · have hFault : fault? kind (k :: r) = some (.first kind k.type) := by
        simp [fault?, hRoot]
      rw [hFault]
      exact first_selects hRoot

theorem fault?_eq_none_iff (kind : ReferenceKind) (keys : List Key) :
    fault? kind keys = none ↔ WellFormed kind keys := by
  rw [(fault?_selects kind keys).eq_none_iff]
  exact ⟨wellFormed_of_not_breaks, not_breaks_of_wellFormed⟩

/-- A chain without fault is one of the grammar; any other chain has the fault of the broken rule
that is asked first, with the place and the type or value at which that rule is broken. -/
theorem fault?_reports_first_broken_rule (kind : ReferenceKind) (keys : List Key) :
    (fault? kind keys = none ↔ WellFormed kind keys) ∧
      ∀ f, fault? kind keys = some f ↔
        Breaks kind keys f ∧ ∀ g, Breaks kind keys g → f.rank ≤ g.rank :=
  ⟨fault?_eq_none_iff kind keys, fault?_selects kind keys⟩

end Chain

end AssetShell
