import AssetShell.Proofs.Number.Digits
import AssetShell.Proofs.Reference.ChainGrammar

/-!
# The scans of a model reference

Three scans look for the faults of a model reference: forwards for a key that is no fragment key,
backwards for the last fragment reference, and over neighbouring keys for a list without index. Each
of them finds exactly the faults of its rules.
-/

namespace AssetShell

namespace Chain

variable {kind : ReferenceKind} {keys : List Key} {k : Key} {r : List Key}

theorem isListIndex_iff (value : String) : isListIndex value = true ↔ IsIndex value := by
  simp [isListIndex, IsIndex, isDigit_iff]

theorem foreignKey?_eq_some_iff (n : Nat) (keys : List Key) (f : ChainFault) :
    foreignKey? n keys = some f ↔ ∃ i t, f = .notAFragment (n + i) t ∧
      typeAt? keys i = some t ∧ t ∉ KeyType.fragments ∧
      ∀ j, j < i → ∀ u, typeAt? keys j = some u → u ∈ KeyType.fragments := by
  induction keys generalizing n with
  | nil => simp [foreignKey?]
  | cons k r ih =>
    rw [foreignKey?]
    split
    · rename_i hk
      rw [ih]
      constructor
      · rintro ⟨i, t, rfl, ht, hFragment, hBefore⟩
        refine ⟨i + 1, t, by rw [Nat.add_right_comm, Nat.add_assoc], ht, hFragment, ?_⟩
        intro j hj u hu
        cases j with
        | zero =>
          cases hu
          exact hk
        | succ j => exact hBefore j (by omega) u hu
      · rintro ⟨i, t, rfl, ht, hFragment, hBefore⟩
        cases i with
        | zero =>
          cases ht
          exact absurd hk hFragment
        | succ i =>
          refine ⟨i, t, by rw [Nat.add_right_comm, Nat.add_assoc], ht, hFragment, ?_⟩
          exact fun j hj u hu => hBefore (j + 1) (by omega) u hu
    · rename_i hk
      constructor
      · intro h
        cases h
        exact ⟨0, k.type, rfl, rfl, hk, fun j hj => absurd hj (Nat.not_lt_zero j)⟩
      · rintro ⟨i, t, rfl, ht, hFragment, hBefore⟩
        cases i with
        | zero =>
          cases ht
          rfl
        | succ i => exact absurd (hBefore 0 (by omega) k.type rfl) hk

theorem lastFragmentAt_cons_succ (i : Nat) :
    LastFragmentAt (k :: r) (i + 1) ↔ LastFragmentAt r i := by
  constructor
  · rintro ⟨hi, hAfter⟩
    exact ⟨hi, fun j hj => hAfter (j + 1) (by omega)⟩
  · rintro ⟨hi, hAfter⟩
    refine ⟨hi, fun j hj => ?_⟩
    obtain ⟨j, rfl⟩ : ∃ m, j = m + 1 := ⟨j - 1, by omega⟩
    exact hAfter j (by omega)

theorem lastFragment?_eq_none_iff (n : Nat) (keys : List Key) :
    lastFragment? n keys = none ↔ ∀ i, typeAt? keys i ≠ some .fragmentReference := by
  induction keys generalizing n with
  | nil => simp [lastFragment?]
  | cons k r ih =>
    rw [lastFragment?]
    cases h : lastFragment? (n + 1) r with
    | none =>
      have hRest := (ih (n + 1)).mp h
      constructor
      · intro hk i
        cases i with
        | zero =>
          intro hi
          simp [Option.some.inj hi] at hk
        | succ i => exact hRest i
      · intro hAll
        have hk : k.type ≠ .fragmentReference := fun hk => hAll 0 (congrArg some hk)
        simp [hk]
    | some m =>
      constructor
      · intro hm
        cases hm
      · intro hAll
        rw [(ih (n + 1)).mpr fun i => hAll (i + 1)] at h
        cases h

theorem lastFragment?_eq_some_iff (n m : Nat) (keys : List Key) :
    lastFragment? n keys = some m ↔ ∃ i, m = n + i ∧ LastFragmentAt keys i := by
  induction keys generalizing n m with
  | nil => simp [lastFragment?, LastFragmentAt]
  | cons k r ih =>
    rw [lastFragment?]
    cases h : lastFragment? (n + 1) r with
    | none =>
      have hRest := (lastFragment?_eq_none_iff (n + 1) r).mp h
      constructor
      · intro hm
        by_cases hk : k.type = .fragmentReference
        · simp only [hk, if_true] at hm
          cases hm
          refine ⟨0, rfl, congrArg some hk, fun j hj => ?_⟩
          obtain ⟨j, rfl⟩ : ∃ m, j = m + 1 := ⟨j - 1, by omega⟩
          exact hRest j
        · simp [hk] at hm
      · rintro ⟨i, rfl, hi⟩
        cases i with
        | zero => simp [Option.some.inj hi.1]
        | succ i => exact absurd hi.1 (hRest i)
    | some l =>
      obtain ⟨i, rfl, hi⟩ := (ih (n + 1) l).mp h
      constructor
      · intro hm
        cases hm
        exact ⟨i + 1, by omega, (lastFragmentAt_cons_succ i).mpr hi⟩
      · rintro ⟨j, rfl, hj⟩
        have hij := lastFragmentAt_unique hj ((lastFragmentAt_cons_succ i).mpr hi)
        rw [hij]
        exact congrArg some (by omega)

theorem indexFault?_eq_some_iff (n : Nat) (keys : List Key) (f : ChainFault) :
    indexFault? n keys = some f ↔ ∃ i value, f = .listIndex (n + i + 1) value ∧
      BadIndexAt keys i value ∧ ∀ j, j < i → ∀ other, ¬ BadIndexAt keys j other := by
  induction keys generalizing n with
  | nil => simp [indexFault?, BadIndexAt]
  | cons list r ih =>
    cases r with
    | nil => simp [indexFault?, BadIndexAt]
    | cons k r =>
      have hHead : ∀ value, BadIndexAt (list :: k :: r) 0 value ↔
          list.type = .submodelElementList ∧ k.value = value ∧ ¬ IsIndex value := by
        intro value
        simp [BadIndexAt]
      rw [indexFault?]
      split
      · rename_i hBad
        have hIndex : ¬ IsIndex k.value := by
          rw [← isListIndex_iff, hBad.2]
          exact Bool.false_ne_true
        have hZero := (hHead k.value).mpr ⟨hBad.1, rfl, hIndex⟩
        constructor
        · intro h
          cases h
          exact ⟨0, k.value, rfl, hZero, fun j hj => absurd hj (Nat.not_lt_zero j)⟩
        · rintro ⟨i, value, rfl, hi, hBefore⟩
          cases i with
          | zero => rw [((hHead value).mp hi).2.1, Nat.add_zero]
          | succ i => exact absurd hZero (hBefore 0 (by omega) k.value)
      · rename_i hGood
        have hNone : ∀ value, ¬ BadIndexAt (list :: k :: r) 0 value := by
          intro value hZero
          obtain ⟨hList, rfl, hIndex⟩ := (hHead value).mp hZero
          rw [← isListIndex_iff, Bool.not_eq_true] at hIndex
          exact hGood ⟨hList, hIndex⟩
        rw [ih]
        constructor
        · rintro ⟨i, value, rfl, hi, hBefore⟩
          refine ⟨i + 1, value, by rw [Nat.add_right_comm n 1 i, Nat.add_assoc n i 1], hi, ?_⟩
          intro j hj other
          cases j with
          | zero => exact hNone other
          | succ j => exact hBefore j (by omega) other
        · rintro ⟨i, value, rfl, hi, hBefore⟩
          cases i with
          | zero => exact absurd hi (hNone value)
          | succ i =>
            refine ⟨i, value, by rw [Nat.add_right_comm n 1 i, Nat.add_assoc n i 1], hi, ?_⟩
            exact fun j hj other => hBefore (j + 1) (by omega) other

/-! ## What the scans find -/

theorem foreignKey?_iff_breaks (f : ChainFault) :
    foreignKey? 1 keys.tail = some f ↔ Breaks .model keys f ∧ f.rank = 2 := by
  have hTail : ∀ i, typeAt? keys.tail i = typeAt? keys (i + 1) := by
    intro i
    simp [typeAt?]
  rw [foreignKey?_eq_some_iff]
  constructor
  · rintro ⟨i, t, rfl, ht, hFragment, hBefore⟩
    rw [hTail] at ht
    refine ⟨⟨rfl, by omega, by rwa [Nat.add_comm 1 i], hFragment, ?_⟩, rfl⟩
    intro j hPos hj u hu
    obtain ⟨j, rfl⟩ : ∃ m, j = m + 1 := ⟨j - 1, by omega⟩
    exact hBefore j (by omega) u (by rwa [hTail])
  · rintro ⟨hBreaks, hRank⟩
    cases f with
    | notAFragment i t =>
      obtain ⟨-, hPos, ht, hFragment, hBefore⟩ := hBreaks
      obtain ⟨i, rfl⟩ : ∃ m, i = m + 1 := ⟨i - 1, by omega⟩
      refine ⟨i, t, by rw [Nat.add_comm], by rwa [hTail], hFragment, ?_⟩
      intro j hj u hu
      rw [hTail] at hu
      exact hBefore (j + 1) (by omega) (by omega) u hu
    | _ => cases hRank

theorem indexFault?_iff_breaks (f : ChainFault) :
    indexFault? 0 keys = some f ↔ Breaks .model keys f ∧ f.rank = 5 := by
  rw [indexFault?_eq_some_iff]
  constructor
  · rintro ⟨i, value, rfl, hi, hBefore⟩
    rw [Nat.zero_add]
    exact ⟨⟨rfl, Nat.succ_pos i, hi, hBefore⟩, rfl⟩
  · rintro ⟨hBreaks, hRank⟩
    cases f with
    | listIndex i value =>
      obtain ⟨-, hPos, hi, hBefore⟩ := hBreaks
      exact ⟨i - 1, value, by rw [Nat.zero_add, Nat.sub_add_cancel hPos], hi, hBefore⟩
    | _ => cases hRank

theorem holder_type {i : Nat} (h : i + 2 = keys.length) :
    keys.dropLast.getLast?.map Key.type = typeAt? keys i := by
  rw [List.getLast?_eq_getElem?, List.getElem?_dropLast, List.length_dropLast, ← h]
  simp [typeAt?]

/-! ## The last fragment reference -/

variable {f : ChainFault} {i : Nat}

theorem not_breaks_of_no_fragment (hNone : ∀ i, typeAt? keys i ≠ some .fragmentReference) :
    ¬ (Breaks .model keys f ∧ (f.rank = 3 ∨ f.rank = 4)) := by
  rintro ⟨hBreaks, hRank⟩
  cases f with
  | fragmentNotLast i => exact hNone i hBreaks.2.1.1
  | fragmentHolder t =>
    obtain ⟨-, i, hi, -⟩ := hBreaks
    exact hNone (i + 1) hi.1
  | _ => rcases hRank with hRank | hRank <;> cases hRank

theorem breaks_iff_of_early_fragment (hi : LastFragmentAt keys i) (hLt : i + 1 < keys.length) :
    Breaks .model keys f ∧ (f.rank = 3 ∨ f.rank = 4) ↔ .fragmentNotLast i = f := by
  constructor
  · rintro ⟨hBreaks, hRank⟩
    cases f with
    | fragmentNotLast j => rw [lastFragmentAt_unique hi hBreaks.2.1]
    | fragmentHolder t =>
      obtain ⟨-, j, hj, hLast, -⟩ := hBreaks
      have hij := lastFragmentAt_unique hi hj
      omega
    | _ => rcases hRank with hRank | hRank <;> cases hRank
  · rintro rfl
    exact ⟨⟨rfl, hi, hLt⟩, .inl rfl⟩

/-- At the end of a chain, a fragment reference is only asked for the key before it. -/
theorem breaks_iff_of_last_fragment (hi : LastFragmentAt keys i) (hEnd : i + 1 = keys.length) :
    Breaks .model keys f ∧ (f.rank = 3 ∨ f.rank = 4) ↔
      ∃ k, keys.dropLast.getLast? = some k ∧ .fragmentHolder k.type = f ∧ k.type ≠ .file ∧
        k.type ≠ .blob := by
  constructor
  · rintro ⟨hBreaks, hRank⟩
    cases f with
    | fragmentNotLast j =>
      have hij := lastFragmentAt_unique hi hBreaks.2.1
      have := hBreaks.2.2
      omega
    | fragmentHolder t =>
      obtain ⟨-, j, -, hLength, ht, hHolder⟩ := hBreaks
      rw [← holder_type hLength] at ht
      obtain ⟨k, hk, rfl⟩ := Option.map_eq_some_iff.mp ht
      exact ⟨k, hk, rfl, hHolder⟩
    | _ => rcases hRank with hRank | hRank <;> cases hRank
  · rintro ⟨k, hk, rfl, hHolder⟩
    have hNonempty : keys.dropLast ≠ [] := by
      intro hNil
      rw [hNil] at hk
      cases hk
    have hLength := List.length_pos_iff.mpr hNonempty
    rw [List.length_dropLast] at hLength
    obtain ⟨j, rfl⟩ : ∃ j, i = j + 1 := ⟨i - 1, by omega⟩
    have hType := holder_type hEnd
    rw [hk] at hType
    exact ⟨⟨rfl, j, hi, hEnd, hType.symm, hHolder⟩, .inr rfl⟩

/-- The last fragment reference is asked for its place and then for what stands before it. -/
theorem fragmentFault?_iff_breaks (f : ChainFault) :
    fragmentFault? keys = some f ↔ Breaks .model keys f ∧ (f.rank = 3 ∨ f.rank = 4) := by
  unfold fragmentFault?
  cases hFind : lastFragment? 0 keys with
  | none =>
    have hNone := (lastFragment?_eq_none_iff 0 keys).mp hFind
    exact iff_of_false (by simp) (not_breaks_of_no_fragment hNone)
  | some index =>
    obtain ⟨i, rfl, hi⟩ := (lastFragment?_eq_some_iff 0 index keys).mp hFind
    have hLt := lt_length_of_typeAt? hi.1
    rw [Nat.zero_add]
    by_cases hEnd : i + 1 = keys.length
    · rw [breaks_iff_of_last_fragment hi hEnd]
      cases hHolder : keys.dropLast.getLast? with
      | none => simp [hEnd]
      | some k =>
        by_cases hGood : k.type ∈ KeyType.fragmentHolders
        · have hKnown : k.type = .file ∨ k.type = .blob := by
            simpa [KeyType.fragmentHolders] using hGood
          rcases hKnown with hKnown | hKnown <;> simp [hEnd, hKnown, KeyType.fragmentHolders]
        · have hOther : k.type ≠ .file ∧ k.type ≠ .blob := by
            simpa [KeyType.fragmentHolders, not_or] using hGood
          simp [hEnd, hGood, hOther]
    · rw [breaks_iff_of_early_fragment hi (by omega)]
      simp [hEnd]

end Chain

end AssetShell
