import AssetShell.Proofs.Reference.FirstFault
import Mathlib.Data.List.Infix

/-!
# Longer and shorter chains

What may be put behind a model reference, and when its parents, the chains that start like it, are
references as well. Only the last fragment reference of a chain has to stand in its place, so a
chain may have one that its parents may not end in or go on behind.
-/

namespace AssetShell

namespace Chain

variable {keys : List Key} {k : Key} {t : KeyType}

def lastType? (keys : List Key) : Option KeyType := keys.getLast?.map Key.type

/-- What a key must be to stand behind the last key of a model reference. -/
structure MayFollow (keys : List Key) (k : Key) : Prop where
  fragment : k.type ∈ KeyType.fragments
  index : lastType? keys = some .submodelElementList → IsIndex k.value
  position :
    (k.type = .fragmentReference ∧
      (lastType? keys = some .file ∨ lastType? keys = some .blob)) ∨
    (k.type ≠ .fragmentReference ∧ ∀ key ∈ keys, key.type ≠ .fragmentReference)

/-! ## Places of a longer chain -/

theorem lastType?_eq_typeAt? (keys : List Key) :
    lastType? keys = typeAt? keys (keys.length - 1) := by
  rw [lastType?, List.getLast?_eq_getElem?, typeAt?]

theorem exists_typeAt?_of_mem (h : k ∈ keys) : ∃ i, typeAt? keys i = some k.type := by
  obtain ⟨i, hi⟩ := List.mem_iff_getElem?.mp h
  exact ⟨i, congrArg (Option.map Key.type) hi⟩

theorem exists_mem_of_typeAt? {i : Nat} (h : typeAt? keys i = some t) :
    ∃ key ∈ keys, key.type = t := by
  obtain ⟨key, hKey, ht⟩ := Option.map_eq_some_iff.mp h
  exact ⟨key, List.mem_of_getElem? hKey, ht⟩

theorem exists_lastFragmentAt (h : k ∈ keys) (hk : k.type = .fragmentReference) :
    ∃ i, LastFragmentAt keys i := by
  obtain ⟨j, hj⟩ := exists_typeAt?_of_mem h
  rw [hk] at hj
  cases hScan : lastFragment? 0 keys with
  | none => exact absurd hj ((lastFragment?_eq_none_iff 0 keys).mp hScan j)
  | some m =>
    obtain ⟨i, -, hi⟩ := (lastFragment?_eq_some_iff 0 m keys).mp hScan
    exact ⟨i, hi⟩

theorem getElem?_concat_of_lt {i : Nat} (h : i < keys.length) : (keys ++ [k])[i]? = keys[i]? :=
  List.getElem?_append_left h

theorem typeAt?_concat_of_lt {i : Nat} (h : i < keys.length) :
    typeAt? (keys ++ [k]) i = typeAt? keys i := by
  rw [typeAt?, getElem?_concat_of_lt h, typeAt?]

theorem typeAt?_concat_length : typeAt? (keys ++ [k]) keys.length = some k.type := by
  rw [typeAt?, List.getElem?_concat_length, Option.map_some]

/-- A place of a longer chain is one of the chain or the new one. -/
theorem typeAt?_concat_cases {i : Nat} (h : typeAt? (keys ++ [k]) i = some t) :
    (i < keys.length ∧ typeAt? keys i = some t) ∨ (i = keys.length ∧ k.type = t) := by
  have hLt := lt_length_of_typeAt? h
  rw [List.length_append, List.length_singleton] at hLt
  rcases Nat.lt_succ_iff_lt_or_eq.mp hLt with hLt | rfl
  · rw [typeAt?_concat_of_lt hLt] at h
    exact .inl ⟨hLt, h⟩
  · rw [typeAt?_concat_length] at h
    exact .inr ⟨rfl, Option.some.inj h⟩

/-! ## The tail of a longer chain -/

/-- The rules that look at one key, or at one key and the next. -/
structure Linked (keys : List Key) : Prop where
  fragments : ∀ i t, 0 < i → typeAt? keys i = some t → t ∈ KeyType.fragments
  indices : ∀ i value, typeAt? keys i = some .submodelElementList →
    keys[i + 1]?.map Key.value = some value → IsIndex value

theorem linked_concat_iff (hKeys : keys ≠ []) :
    Linked (keys ++ [k]) ↔ Linked keys ∧ k.type ∈ KeyType.fragments ∧
      (lastType? keys = some .submodelElementList → IsIndex k.value) := by
  have hLength : 0 < keys.length := List.length_pos_iff.mpr hKeys
  have hNext : keys.length - 1 + 1 = keys.length := by omega
  constructor
  · intro h
    refine ⟨⟨fun i t hPos ht => ?_, fun i value hList hValue => ?_⟩, ?_, fun hLast => ?_⟩
    · apply h.fragments i t hPos
      rw [typeAt?_concat_of_lt (lt_length_of_typeAt? ht), ht]
    · have hLt : i + 1 < keys.length := by
        obtain ⟨key, hKey, -⟩ := Option.map_eq_some_iff.mp hValue
        exact (List.getElem?_eq_some_iff.mp hKey).1
      apply h.indices i value
      · rw [typeAt?_concat_of_lt (by omega), hList]
      · rw [getElem?_concat_of_lt hLt, hValue]
    · exact h.fragments keys.length k.type hLength typeAt?_concat_length
    · apply h.indices (keys.length - 1) k.value
      · rw [typeAt?_concat_of_lt (by omega), ← lastType?_eq_typeAt?, hLast]
      · rw [hNext, List.getElem?_concat_length, Option.map_some]
  · rintro ⟨h, hFragment, hIndex⟩
    refine ⟨fun i t hPos ht => ?_, fun i value hList hValue => ?_⟩
    · rcases typeAt?_concat_cases ht with ⟨-, ht⟩ | ⟨-, rfl⟩
      · exact h.fragments i t hPos ht
      · exact hFragment
    · obtain ⟨key, hKey, rfl⟩ := Option.map_eq_some_iff.mp hValue
      have hLt := (List.getElem?_eq_some_iff.mp hKey).1
      rw [List.length_append, List.length_singleton] at hLt
      rw [typeAt?_concat_of_lt (by omega)] at hList
      by_cases hInner : i + 1 < keys.length
      · rw [getElem?_concat_of_lt hInner] at hKey
        exact h.indices i key.value hList (congrArg (Option.map Key.value) hKey)
      · obtain rfl : i = keys.length - 1 := by omega
        rw [hNext, List.getElem?_concat_length] at hKey
        cases hKey
        exact hIndex ((lastType?_eq_typeAt? keys).trans hList)

/-- Where the last fragment reference of a longer chain may stand, by whether the new key is one. -/
theorem fragmentEnd_concat_iff (hKeys : keys ≠ []) :
    (∀ i, LastFragmentAt (keys ++ [k]) i → i + 1 = (keys ++ [k]).length ∧
        (typeAt? (keys ++ [k]) (i - 1) = some .file ∨
          typeAt? (keys ++ [k]) (i - 1) = some .blob)) ↔
      (k.type = .fragmentReference ∧
        (lastType? keys = some .file ∨ lastType? keys = some .blob)) ∨
      (k.type ≠ .fragmentReference ∧ ∀ key ∈ keys, key.type ≠ .fragmentReference) := by
  have hLength : 0 < keys.length := List.length_pos_iff.mpr hKeys
  have hHolder : typeAt? (keys ++ [k]) (keys.length - 1) = lastType? keys := by
    rw [typeAt?_concat_of_lt (by omega), lastType?_eq_typeAt?]
  by_cases hk : k.type = .fragmentReference
  · have hLast : LastFragmentAt (keys ++ [k]) keys.length := by
      refine ⟨typeAt?_concat_length.trans (congrArg some hk), fun j hj hType => ?_⟩
      have hLt := lt_length_of_typeAt? hType
      rw [List.length_append, List.length_singleton] at hLt
      omega
    constructor
    · intro h
      have hEnd := (h keys.length hLast).2
      rw [hHolder] at hEnd
      exact .inl ⟨hk, hEnd⟩
    · rintro (⟨-, hEnd⟩ | ⟨hOther, -⟩)
      · intro i hi
        obtain rfl := lastFragmentAt_unique hi hLast
        rw [hHolder, List.length_append, List.length_singleton]
        exact ⟨rfl, hEnd⟩
      · exact absurd hk hOther
  · constructor
    · intro h
      refine .inr ⟨hk, fun key hKey hFragment => ?_⟩
      obtain ⟨i, hi⟩ := exists_lastFragmentAt (List.mem_append_left [k] hKey) hFragment
      have hEnd := (h i hi).1
      rw [List.length_append, List.length_singleton] at hEnd
      obtain rfl : i = keys.length := by omega
      exact hk (Option.some.inj (typeAt?_concat_length.symm.trans hi.1))
    · rintro (⟨hFragment, -⟩ | ⟨-, hNone⟩)
      · exact absurd hFragment hk
      · intro i hi
        obtain ⟨key, hKey, hFragment⟩ := exists_mem_of_typeAt? hi.1
        rcases List.mem_append.mp hKey with hKey | hKey
        · exact absurd hFragment (hNone key hKey)
        · rw [List.mem_singleton.mp hKey] at hFragment
          exact absurd hFragment hk

theorem modelTail_iff_linked : ModelTail keys ↔ Linked keys ∧
    ∀ i, LastFragmentAt keys i → i + 1 = keys.length ∧
      (typeAt? keys (i - 1) = some .file ∨ typeAt? keys (i - 1) = some .blob) :=
  ⟨fun h => ⟨⟨h.fragments, h.indices⟩, h.fragmentEnd⟩,
    fun h => ⟨h.1.fragments, h.2, h.1.indices⟩⟩

theorem modelTail_concat_iff (hKeys : keys ≠ []) :
    ModelTail (keys ++ [k]) ↔ Linked keys ∧ MayFollow keys k := by
  rw [modelTail_iff_linked, linked_concat_iff hKeys, fragmentEnd_concat_iff hKeys]
  constructor
  · rintro ⟨⟨h, hFragment, hIndex⟩, hPosition⟩
    exact ⟨h, hFragment, hIndex, hPosition⟩
  · rintro ⟨h, hFragment, hIndex, hPosition⟩
    exact ⟨⟨h, hFragment, hIndex⟩, hPosition⟩

/-- One key by itself has no tail to look at. -/
theorem modelTail_singleton (hRoot : k.type ≠ .fragmentReference) : ModelTail [k] := by
  refine ⟨fun i t hPos ht => ?_, fun i hi => ?_, fun i value _ hValue => ?_⟩
  · have hLt := lt_length_of_typeAt? ht
    rw [List.length_singleton] at hLt
    omega
  · obtain ⟨key, hKey, hFragment⟩ := exists_mem_of_typeAt? hi.1
    rw [List.mem_singleton.mp hKey] at hFragment
    exact absurd hFragment hRoot
  · cases hValue

theorem wellFormed_model_iff :
    WellFormed .model keys ↔
      (∃ t ∈ KeyType.modelRoots, typeAt? keys 0 = some t) ∧ ModelTail keys := by
  constructor
  · intro h
    refine ⟨h.root, ?_⟩
    by_cases hLong : 1 < keys.length
    · exact h.modelTail rfl hLong
    · obtain ⟨t, ht, hFirst⟩ := h.root
      have hLt := lt_length_of_typeAt? hFirst
      obtain ⟨k, rfl⟩ := List.length_eq_one_iff.mp (by omega : keys.length = 1)
      apply modelTail_singleton
      cases hFirst
      intro hFragment
      rw [hFragment] at ht
      exact absurd ht (by decide)
  · rintro ⟨hRoot, hTail⟩
    refine ⟨?_, hRoot, fun _ _ => hTail, fun hKind => by cases hKind⟩
    rintro rfl
    obtain ⟨t, -, hFirst⟩ := hRoot
    cases hFirst

/-! ## Children and parents -/

/-- No fragment reference stands before the end of a model reference that another key may follow. -/
theorem no_fragment_of_mayFollow (h : ModelTail keys) (hk : MayFollow keys k) :
    ∀ key ∈ keys, key.type ≠ .fragmentReference := by
  rcases hk.position with ⟨-, hHolder⟩ | ⟨-, hNone⟩
  · intro key hKey hFragment
    obtain ⟨i, hi⟩ := exists_lastFragmentAt hKey hFragment
    have hEnd := (h.fragmentEnd i hi).1
    rw [lastType?_eq_typeAt?, ← hEnd, Nat.add_sub_cancel, hi.1] at hHolder
    rcases hHolder with hHolder | hHolder <;> cases hHolder
  · exact hNone

theorem wellFormed_concat_iff (h : WellFormed .model keys) :
    WellFormed .model (keys ++ [k]) ↔ MayFollow keys k := by
  have hLength : 0 < keys.length := List.length_pos_iff.mpr h.nonempty
  obtain ⟨hRoot, hTail⟩ := wellFormed_model_iff.mp h
  rw [wellFormed_model_iff, modelTail_concat_iff h.nonempty, typeAt?_concat_of_lt hLength]
  exact ⟨fun h => h.2.2, fun hk => ⟨hRoot, (modelTail_iff_linked.mp hTail).1, hk⟩⟩

theorem wellFormed_of_concat (h : WellFormed .model (keys ++ [k])) (hKeys : keys ≠ [])
    (hNone : ∀ key ∈ keys, key.type ≠ .fragmentReference) : WellFormed .model keys := by
  obtain ⟨hRoot, hTail⟩ := wellFormed_model_iff.mp h
  rw [typeAt?_concat_of_lt (List.length_pos_iff.mpr hKeys)] at hRoot
  obtain ⟨hLinked, -⟩ := (modelTail_concat_iff hKeys).mp hTail
  refine wellFormed_model_iff.mpr ⟨hRoot, modelTail_iff_linked.mpr ⟨hLinked, fun i hi => ?_⟩⟩
  obtain ⟨key, hKey, hFragment⟩ := exists_mem_of_typeAt? hi.1
  exact absurd hFragment (hNone key hKey)

/-- Without a fragment reference before the end every parent is well formed, from the end on. -/
theorem wellFormed_of_prefix (h : WellFormed .model keys)
    (hNone : ∀ key ∈ keys.dropLast, key.type ≠ .fragmentReference) {parent : List Key}
    (hParent : parent <+: keys) (hNonempty : parent ≠ []) : WellFormed .model parent := by
  induction keys using List.reverseRecOn with
  | nil => exact absurd rfl h.nonempty
  | append_singleton keys k ih =>
    rw [List.dropLast_concat] at hNone
    rcases List.prefix_concat_iff.mp hParent with rfl | hParent
    · exact h
    · have hKeys : keys ≠ [] := by
        rintro rfl
        exact hNonempty (List.prefix_nil.mp hParent)
      have hShorter := wellFormed_of_concat h hKeys hNone
      exact ih hShorter (fun key hKey => hNone key (List.mem_of_mem_dropLast hKey)) hParent

theorem no_fragment_before_end (h : WellFormed .model keys)
    (hAll : ∀ parent, parent <+: keys → parent ≠ [] → WellFormed .model parent) :
    ∀ key ∈ keys.dropLast, key.type ≠ .fragmentReference := by
  obtain ⟨parent, k, rfl⟩ : ∃ parent k, keys = parent ++ [k] :=
    ⟨_, _, (List.dropLast_concat_getLast h.nonempty).symm⟩
  rw [List.dropLast_concat]
  intro key hKey
  have hParent := hAll parent (List.prefix_append _ _) (List.ne_nil_of_mem hKey)
  exact no_fragment_of_mayFollow (wellFormed_model_iff.mp hParent).2
    ((wellFormed_concat_iff hParent).mp h) key hKey

/-- All parents of a model reference are model references exactly if no fragment reference stands
before its end. A key behind it gives a model reference exactly if it may follow there. -/
theorem parents_and_children (hKeys : fault? .model keys = none) :
    ((∀ parent, parent <+: keys → parent ≠ [] → fault? .model parent = none) ↔
      ∀ key ∈ keys.dropLast, key.type ≠ .fragmentReference) ∧
    ∀ k, fault? .model (keys ++ [k]) = none ↔ MayFollow keys k := by
  simp only [fault?_eq_none_iff] at hKeys ⊢
  refine ⟨⟨no_fragment_before_end hKeys, fun hNone parent => ?_⟩, fun k => ?_⟩
  · exact wellFormed_of_prefix hKeys hNone
  · exact wellFormed_concat_iff hKeys

/-- Of two fragment references only the second has to stand behind a file or a blob. So there is a
parent that is no reference, and nothing may follow. -/
theorem parents_and_children_of_two_fragments :
    let keys : List Key := [⟨.submodel, "s"⟩, ⟨.fragmentReference, "a"⟩, ⟨.blob, "b"⟩,
      ⟨.fragmentReference, "c"⟩]
    fault? .model keys = none ∧
      (∃ parent, parent <+: keys ∧ parent ≠ [] ∧ fault? .model parent ≠ none) ∧
      ∀ k, fault? .model (keys ++ [k]) ≠ none := by
  intro keys
  have hKeys : fault? .model keys = none := by decide
  obtain ⟨hParents, hChildren⟩ := parents_and_children hKeys
  have hSecond : (⟨.fragmentReference, "a"⟩ : Key) ∈ keys.dropLast := by decide
  refine ⟨hKeys, ?_, fun k hChild => ?_⟩
  · by_contra hNone
    refine hParents.mp (fun parent hParent hNonempty => ?_) _ hSecond rfl
    by_contra hFault
    exact hNone ⟨parent, hParent, hNonempty, hFault⟩
  · rcases ((hChildren k).mp hChild).position with ⟨-, hHolder⟩ | ⟨-, hNone⟩
    · rcases hHolder with hHolder | hHolder <;> cases hHolder
    · exact hNone _ (List.mem_of_mem_dropLast hSecond) rfl

end Chain

end AssetShell
