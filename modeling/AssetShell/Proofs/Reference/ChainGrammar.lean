import AssetShell.Reference.Basic
import Mathlib.Tactic.ByContra

/-!
# The grammar of chains

What a chain of keys has to satisfy, place by place, and what each fault says about a chain. A chain
is one of the grammar if and only if no fault says anything true about it.
-/

namespace AssetShell

namespace Chain

/-- The type of the key at a place, if the chain has this place. -/
def typeAt? (keys : List Key) (i : Nat) : Option KeyType := keys[i]?.map Key.type

/-- The last of all fragment references of a chain stands at this place. -/
def LastFragmentAt (keys : List Key) (i : Nat) : Prop :=
  typeAt? keys i = some .fragmentReference ∧
    ∀ j, i < j → typeAt? keys j ≠ some .fragmentReference

def IsIndex (value : String) : Prop := value ≠ "" ∧ ∀ c ∈ value.toList, '0' ≤ c ∧ c ≤ '9'

/-- Behind the list at place `i` stands a key whose value is no index. -/
def BadIndexAt (keys : List Key) (i : Nat) (value : String) : Prop :=
  typeAt? keys i = some .submodelElementList ∧ keys[i + 1]?.map Key.value = some value ∧
    ¬ IsIndex value

structure ModelTail (keys : List Key) : Prop where
  fragments : ∀ i t, 0 < i → typeAt? keys i = some t → t ∈ KeyType.fragments
  fragmentEnd : ∀ i, LastFragmentAt keys i → i + 1 = keys.length ∧
    (typeAt? keys (i - 1) = some .file ∨ typeAt? keys (i - 1) = some .blob)
  indices : ∀ i value, typeAt? keys i = some .submodelElementList →
    keys[i + 1]?.map Key.value = some value → IsIndex value

def ExternalTail (keys : List Key) : Prop :=
  typeAt? keys (keys.length - 1) = some .globalReference ∨
    typeAt? keys (keys.length - 1) = some .fragmentReference

structure WellFormed (kind : ReferenceKind) (keys : List Key) : Prop where
  nonempty : keys ≠ []
  root : ∃ t ∈ kind.roots, typeAt? keys 0 = some t
  modelTail : kind = .model → 1 < keys.length → ModelTail keys
  externalTail : kind = .external → 1 < keys.length → ExternalTail keys

/-- What a fault says about a chain. Places are the least ones where a rule is broken, except for
fragment references, of which the last one counts. -/
def Breaks (kind : ReferenceKind) (keys : List Key) : ChainFault → Prop
  | .empty => keys = []
  | .first found t => found = kind ∧ typeAt? keys 0 = some t ∧ t ∉ kind.roots
  | .notAFragment i t => kind = .model ∧ 0 < i ∧ typeAt? keys i = some t ∧ t ∉ KeyType.fragments ∧
    ∀ j, 0 < j → j < i → ∀ u, typeAt? keys j = some u → u ∈ KeyType.fragments
  | .fragmentNotLast i => kind = .model ∧ LastFragmentAt keys i ∧ i + 1 < keys.length
  | .fragmentHolder t => kind = .model ∧ ∃ i, LastFragmentAt keys (i + 1) ∧
    i + 2 = keys.length ∧ typeAt? keys i = some t ∧ t ≠ .file ∧ t ≠ .blob
  | .listIndex i value => kind = .model ∧ 0 < i ∧ BadIndexAt keys (i - 1) value ∧
    ∀ j, j < i - 1 → ∀ other, ¬ BadIndexAt keys j other
  | .externalEnd t => kind = .external ∧ 1 < keys.length ∧
    typeAt? keys (keys.length - 1) = some t ∧ t ≠ .globalReference ∧ t ≠ .fragmentReference

end Chain

/-- The place of a rule in the order in which the rules are asked. -/
def ChainFault.rank : ChainFault → Nat
  | .empty => 0
  | .first .. => 1
  | .notAFragment .. => 2
  | .fragmentNotLast _ => 3
  | .fragmentHolder _ => 4
  | .listIndex .. => 5
  | .externalEnd _ => 6

namespace Chain

variable {kind : ReferenceKind} {keys : List Key} {k : Key} {r : List Key}

@[simp] theorem typeAt?_nil (i : Nat) : typeAt? [] i = none := rfl

@[simp] theorem typeAt?_cons_zero : typeAt? (k :: r) 0 = some k.type := rfl

@[simp] theorem typeAt?_cons_succ (i : Nat) : typeAt? (k :: r) (i + 1) = typeAt? r i := rfl

theorem typeAt?_eq_none_iff {i : Nat} : typeAt? keys i = none ↔ keys.length ≤ i := by
  simp [typeAt?]

theorem lt_length_of_typeAt? {i : Nat} {t : KeyType} (h : typeAt? keys i = some t) :
    i < keys.length := by
  by_contra hLe
  rw [typeAt?_eq_none_iff.mpr (Nat.le_of_not_lt hLe)] at h
  cases h

theorem exists_typeAt? (keys : List Key) (i : Nat) (h : i < keys.length) : ∃ t, typeAt? keys i = some t :=
  Option.ne_none_iff_exists'.mp fun hNone => Nat.not_le_of_lt h (typeAt?_eq_none_iff.mp hNone)

theorem BadIndexAt.lt_length {i : Nat} {value : String} (h : BadIndexAt keys i value) :
    i + 1 < keys.length := by
  obtain ⟨k, hk, -⟩ := Option.map_eq_some_iff.mp h.2.1
  exact (List.getElem?_eq_some_iff.mp hk).1

theorem lastFragmentAt_unique {i j : Nat} (hi : LastFragmentAt keys i)
    (hj : LastFragmentAt keys j) : i = j := by
  rcases Nat.lt_trichotomy i j with h | h | h
  · exact absurd hj.1 (hi.2 j h)
  · exact h
  · exact absurd hi.1 (hj.2 i h)

theorem not_breaks_of_wellFormed (h : WellFormed kind keys) (f : ChainFault) :
    ¬ Breaks kind keys f := by
  obtain ⟨t₀, hRoot, hFirst⟩ := h.root
  intro hBreaks
  cases f with
  | empty => exact h.nonempty hBreaks
  | first found t =>
    obtain ⟨-, ht, hOther⟩ := hBreaks
    rw [hFirst] at ht
    cases ht
    exact hOther hRoot
  | notAFragment i t =>
    obtain ⟨hKind, hPos, ht, hOther, -⟩ := hBreaks
    have hLong := lt_length_of_typeAt? ht
    exact hOther ((h.modelTail hKind (by omega)).fragments i t hPos ht)
  | fragmentNotLast i =>
    obtain ⟨hKind, hi, hLt⟩ := hBreaks
    have := ((h.modelTail hKind (by omega)).fragmentEnd i hi).1
    omega
  | fragmentHolder t =>
    obtain ⟨hKind, i, hi, hLength, ht, hFile, hBlob⟩ := hBreaks
    have hHolder := ((h.modelTail hKind (by omega)).fragmentEnd (i + 1) hi).2
    rw [Nat.add_sub_cancel, ht] at hHolder
    rcases hHolder with hHolder | hHolder
    · exact hFile (Option.some.inj hHolder)
    · exact hBlob (Option.some.inj hHolder)
  | listIndex i value =>
    obtain ⟨hKind, -, hBad, -⟩ := hBreaks
    have hLong := hBad.lt_length
    exact hBad.2.2 ((h.modelTail hKind (by omega)).indices _ value hBad.1 hBad.2.1)
  | externalEnd t =>
    obtain ⟨hKind, hLong, ht, hGlobal, hFragment⟩ := hBreaks
    have hEnd := h.externalTail hKind hLong
    rw [ExternalTail, ht] at hEnd
    rcases hEnd with hEnd | hEnd
    · exact hGlobal (Option.some.inj hEnd)
    · exact hFragment (Option.some.inj hEnd)

theorem wellFormed_of_not_breaks (h : ∀ f, ¬ Breaks kind keys f) : WellFormed kind keys := by
  have hNonempty : keys ≠ [] := h .empty
  obtain ⟨t₀, hFirst⟩ := exists_typeAt? keys 0 (List.length_pos_iff.mpr hNonempty)
  have hRoot : t₀ ∈ kind.roots := by
    by_contra hOther
    exact h (.first kind t₀) ⟨rfl, hFirst, hOther⟩
  refine ⟨hNonempty, ⟨t₀, hRoot, hFirst⟩, ?_, ?_⟩
  · rintro rfl hLong
    refine ⟨?_, ?_, ?_⟩
    · -- The least offending place would be reported, so there is none.
      intro i
      induction i using Nat.strongRecOn with
      | ind i ih =>
        intro t hPos ht
        by_contra hOther
        exact h (.notAFragment i t) ⟨rfl, hPos, ht, hOther, fun j hj hLt u => ih j hLt u hj⟩
    · intro i hi
      have hLt := lt_length_of_typeAt? hi.1
      have hEnd : i + 1 = keys.length := by
        by_contra hNot
        exact h (.fragmentNotLast i) ⟨rfl, hi, by omega⟩
      refine ⟨hEnd, ?_⟩
      obtain ⟨i, rfl⟩ : ∃ j, i = j + 1 := ⟨i - 1, by omega⟩
      obtain ⟨t, ht⟩ := exists_typeAt? keys i (by omega)
      by_contra hOther
      rw [Nat.add_sub_cancel, ht, not_or] at hOther
      refine h (.fragmentHolder t) ⟨rfl, i, hi, hEnd, ht, ?_, ?_⟩
      · exact fun hFile => hOther.1 (congrArg some hFile)
      · exact fun hBlob => hOther.2 (congrArg some hBlob)
    · have hNone : ∀ i value, ¬ BadIndexAt keys i value := by
        intro i
        induction i using Nat.strongRecOn with
        | ind i ih =>
          intro value hi
          exact h (.listIndex (i + 1) value) ⟨rfl, Nat.succ_pos i, hi, ih⟩
      intro i value hList hValue
      by_contra hIndex
      exact hNone i value ⟨hList, hValue, hIndex⟩
  · rintro rfl hLong
    obtain ⟨t, ht⟩ := exists_typeAt? keys (keys.length - 1) (by omega)
    by_contra hOther
    rw [ExternalTail, ht, not_or] at hOther
    refine h (.externalEnd t) ⟨rfl, hLong, ht, ?_, ?_⟩
    · exact fun hGlobal => hOther.1 (congrArg some hGlobal)
    · exact fun hFragment => hOther.2 (congrArg some hFragment)

end Chain

end AssetShell
