import AssetShell.Json.Value
import Mathlib.Data.List.Permutation
import Mathlib.Data.String.Basic

/-!
# Canonical forms

The canonical form of a value is its own canonical form, names no member of an object twice, and
nests no deeper than the value. If no object of a value names a member twice, its canonical form
only puts members in another order. Two such values are alike if their canonical forms are equal.
-/

namespace AssetShell

namespace Json

theorem induction_on_parts {P : Json → Prop} (null : P .null) (bool : ∀ b, P (.bool b))
    (number : ∀ n, P (.number n)) (string : ∀ s, P (.string s))
    (array : ∀ items, (∀ v ∈ items, P v) → P (.array items))
    (object : ∀ members, (∀ m ∈ members, P m.2) → P (.object members)) (v : Json) : P v := by
  refine Json.rec (motive_1 := P) (motive_2 := fun items => ∀ v ∈ items, P v)
    (motive_3 := fun members => ∀ m ∈ members, P m.2) (motive_4 := fun m => P m.2)
    null bool number string array object ?_ ?_ ?_ ?_ ?_ v
  · exact fun v hv => absurd hv List.not_mem_nil
  · exact fun v r hv hr => List.forall_mem_cons.mpr ⟨hv, hr⟩
  · exact fun m hm => absurd hm List.not_mem_nil
  · exact fun m r hm hr => List.forall_mem_cons.mpr ⟨hm, hr⟩
  · exact fun _ _ h => h

/-! ## Members in order -/

abbrev names (members : List (String × Json)) : List String := members.map Prod.fst

variable {name : String} {v : Json} {m : String × Json} {ms ns : List (String × Json)}

theorem mem_of_mem_insertMember (h : m ∈ insertMember name v ms) : m = (name, v) ∨ m ∈ ms := by
  induction ms with
  | nil => exact .inl (List.mem_singleton.mp h)
  | cons entry r ih =>
    obtain ⟨other, w⟩ := entry
    simp only [insertMember] at h
    split at h
    · exact List.mem_cons.mp h
    · split at h
      · exact (List.mem_cons.mp h).imp_right (List.mem_cons_of_mem _)
      · rcases List.mem_cons.mp h with rfl | h
        · exact .inr List.mem_cons_self
        · exact (ih h).imp_right (List.mem_cons_of_mem _)

theorem insertMember_perm (h : name ∉ names ms) :
    (insertMember name v ms).Perm ((name, v) :: ms) := by
  induction ms with
  | nil => rfl
  | cons entry r ih =>
    obtain ⟨other, w⟩ := entry
    obtain ⟨hOther, hRest⟩ := List.ne_and_not_mem_of_not_mem_cons h
    simp only [insertMember]
    split
    · rfl
    · exact ((ih hRest).cons _).trans (.swap _ _ _)

theorem insertMember_sorted (h : (names ms).Pairwise (· < ·)) :
    (names (insertMember name v ms)).Pairwise (· < ·) := by
  induction ms with
  | nil => exact List.pairwise_singleton _ _
  | cons entry r ih =>
    obtain ⟨other, w⟩ := entry
    obtain ⟨hFirst, hRest⟩ := List.pairwise_cons.mp h
    simp only [insertMember]
    split
    · rename_i hLt
      refine List.pairwise_cons.mpr ⟨?_, h⟩
      intro n hn
      rcases List.mem_cons.mp hn with rfl | hn
      · exact hLt
      · exact hLt.trans (hFirst n hn)
    · rename_i hNotLt
      split
      · rename_i hEq
        exact hEq ▸ h
      · rename_i hNe
        refine List.pairwise_cons.mpr ⟨?_, ih hRest⟩
        intro n hn
        obtain ⟨m, hm, rfl⟩ := List.mem_map.mp hn
        rcases mem_of_mem_insertMember hm with rfl | hm
        · exact lt_of_le_of_ne (not_lt.mp hNotLt) (Ne.symm hNe)
        · exact hFirst _ (List.mem_map_of_mem hm)

theorem insertMember_of_lt (h : ∀ n ∈ names ms, n < name) :
    insertMember name v ms = ms ++ [(name, v)] := by
  induction ms with
  | nil => rfl
  | cons entry r ih =>
    obtain ⟨other, w⟩ := entry
    have hOther : other < name := h other List.mem_cons_self
    rw [insertMember, if_neg (String.lt_asymm hOther), if_neg hOther.ne',
      ih fun n hn => h n (List.mem_cons_of_mem _ hn), List.cons_append]

theorem mem_of_mem_foldl_insertMember {sorted : List (String × Json)}
    (h : m ∈ ms.foldl (fun sorted (name, v) => insertMember name v sorted) sorted) :
    m ∈ sorted ∨ m ∈ ms := by
  induction ms generalizing sorted with
  | nil => exact .inl h
  | cons entry r ih =>
    rcases ih h with hm | hm
    · rcases mem_of_mem_insertMember hm with rfl | hm
      · exact .inr List.mem_cons_self
      · exact .inl hm
    · exact .inr (List.mem_cons_of_mem _ hm)

theorem foldl_insertMember_perm {sorted : List (String × Json)}
    (h : (names (sorted ++ ms)).Nodup) :
    (ms.foldl (fun sorted (name, v) => insertMember name v sorted) sorted).Perm (sorted ++ ms) := by
  induction ms generalizing sorted with
  | nil => rw [List.append_nil]; rfl
  | cons entry r ih =>
    obtain ⟨name, v⟩ := entry
    have hMiddle : (sorted ++ (name, v) :: r).Perm ((name, v) :: sorted ++ r) := List.perm_middle
    have hNodup : (names ((name, v) :: (sorted ++ r))).Nodup := (hMiddle.map _).nodup_iff.mp h
    have hNew : name ∉ names sorted := fun hMem =>
      (List.nodup_cons.mp hNodup).1 (List.map_append .. ▸ List.mem_append_left _ hMem)
    have hInsert : (insertMember name v sorted ++ r).Perm ((name, v) :: sorted ++ r) :=
      (insertMember_perm hNew).append_right r
    exact (ih ((hInsert.map _).nodup_iff.mpr hNodup)).trans (hInsert.trans hMiddle.symm)

theorem foldl_insertMember_sorted {sorted : List (String × Json)}
    (h : (names sorted).Pairwise (· < ·)) :
    (names (ms.foldl (fun sorted (name, v) => insertMember name v sorted) sorted)).Pairwise
      (· < ·) := by
  induction ms generalizing sorted with
  | nil => exact h
  | cons entry r ih => exact ih (insertMember_sorted h)

theorem foldl_insertMember_of_sorted {sorted : List (String × Json)}
    (h : (names (sorted ++ ms)).Pairwise (· < ·)) :
    ms.foldl (fun sorted (name, v) => insertMember name v sorted) sorted = sorted ++ ms := by
  induction ms generalizing sorted with
  | nil => exact (List.append_nil sorted).symm
  | cons entry r ih =>
    obtain ⟨name, v⟩ := entry
    have hBefore : ∀ n ∈ names sorted, n < name := by
      intro n hn
      rw [names, List.map_append, List.pairwise_append] at h
      exact h.2.2 n hn name List.mem_cons_self
    have hInsert : insertMember name v sorted ++ r = sorted ++ (name, v) :: r := by
      rw [insertMember_of_lt hBefore, List.append_assoc, List.singleton_append]
    exact (ih (hInsert ▸ h)).trans hInsert

theorem mem_of_mem_sortMembers (h : m ∈ sortMembers ms) : m ∈ ms :=
  (mem_of_mem_foldl_insertMember h).resolve_left List.not_mem_nil

theorem sortMembers_perm (h : (names ms).Nodup) : (sortMembers ms).Perm ms :=
  foldl_insertMember_perm h

theorem sortMembers_sorted (ms : List (String × Json)) :
    (names (sortMembers ms)).Pairwise (· < ·) :=
  foldl_insertMember_sorted .nil

theorem sortMembers_of_sorted (h : (names ms).Pairwise (· < ·)) : sortMembers ms = ms :=
  foldl_insertMember_of_sorted h

theorem names_sortMembers_nodup (ms : List (String × Json)) : (names (sortMembers ms)).Nodup :=
  (sortMembers_sorted ms).imp fun h => h.ne

/-! ## Canonical parts -/

def canonicalMember (m : String × Json) : String × Json := (m.1, m.2.canonical)

theorem canonicalItems_eq_map (items : List Json) : canonicalItems items = items.map canonical := by
  induction items with
  | nil => rfl
  | cons v r ih => rw [canonicalItems, ih, List.map_cons]

theorem canonicalMembers_eq_map (ms : List (String × Json)) :
    canonicalMembers ms = ms.map canonicalMember := by
  induction ms with
  | nil => rfl
  | cons m r ih => rw [canonicalMembers, ih, List.map_cons]; rfl

theorem names_map_canonicalMember (ms : List (String × Json)) :
    names (ms.map canonicalMember) = names ms := by
  rw [names, List.map_map]
  rfl

theorem canonical_array (items : List Json) :
    (Json.array items).canonical = .array (items.map canonical) := by
  rw [canonical, canonicalItems_eq_map]

theorem canonical_object (ms : List (String × Json)) :
    (Json.object ms).canonical = .object (sortMembers (ms.map canonicalMember)) := by
  rw [canonical, canonicalMembers_eq_map]

theorem canonical_canonical (v : Json) : v.canonical.canonical = v.canonical := by
  induction v using induction_on_parts with
  | array items ih =>
    rw [canonical_array, canonical_array, List.map_map]
    exact congrArg Json.array (List.map_congr_left ih)
  | object ms ih =>
    -- Members of the canonical form have canonical values already and are in order.
    have hMembers : (sortMembers (ms.map canonicalMember)).map canonicalMember =
        sortMembers (ms.map canonicalMember) := by
      conv_rhs => rw [← List.map_id (sortMembers (ms.map canonicalMember))]
      refine List.map_congr_left fun m hm => ?_
      obtain ⟨n, hn, rfl⟩ := List.mem_map.mp (mem_of_mem_sortMembers hm)
      exact congrArg (Prod.mk n.1) (ih n hn)
    rw [canonical_object, canonical_object, hMembers, sortMembers_of_sorted (sortMembers_sorted _)]
  | _ => rfl

/-! ## Depth -/

@[simp] theorem depth_bool (b : Bool) : (Json.bool b).depth = 0 := rfl

@[simp] theorem depth_string (s : String) : (Json.string s).depth = 0 := rfl

theorem depthOfItems_le_iff {items : List Json} {n : Nat} :
    depthOfItems items ≤ n ↔ ∀ v ∈ items, v.depth ≤ n := by
  induction items with
  | nil => simp [depthOfItems]
  | cons v r ih => rw [depthOfItems, Nat.max_le, ih, List.forall_mem_cons]

theorem depthOfMembers_le_iff {n : Nat} :
    depthOfMembers ms ≤ n ↔ ∀ m ∈ ms, m.2.depth ≤ n := by
  induction ms with
  | nil => simp [depthOfMembers]
  | cons m r ih => rw [depthOfMembers, Nat.max_le, ih, List.forall_mem_cons]

theorem depth_le_depthOfItems {items : List Json} (h : v ∈ items) : v.depth ≤ depthOfItems items :=
  depthOfItems_le_iff.mp le_rfl v h

theorem depth_le_depthOfMembers (h : m ∈ ms) : m.2.depth ≤ depthOfMembers ms :=
  depthOfMembers_le_iff.mp le_rfl m h

theorem depth_canonical_le (v : Json) : v.canonical.depth ≤ v.depth := by
  induction v using induction_on_parts with
  | array items ih =>
    rw [canonical_array]
    refine Nat.succ_le_succ (depthOfItems_le_iff.mpr (List.forall_mem_map.mpr fun v hv => ?_))
    exact (ih v hv).trans (depth_le_depthOfItems hv)
  | object ms ih =>
    rw [canonical_object]
    refine Nat.succ_le_succ (depthOfMembers_le_iff.mpr fun m hm => ?_)
    obtain ⟨n, hn, rfl⟩ := List.mem_map.mp (mem_of_mem_sortMembers hm)
    exact (ih n hn).trans (depth_le_depthOfMembers hn)
  | _ => exact le_rfl

/-! ## Distinct names -/

inductive Distinct : Json → Prop
  | null : Distinct .null
  | bool (b : Bool) : Distinct (.bool b)
  | number (n : Number) : Distinct (.number n)
  | string (s : String) : Distinct (.string s)
  | array {items : List Json} (h : ∀ v ∈ items, Distinct v) : Distinct (.array items)
  | object {ms : List (String × Json)} (hNames : (names ms).Nodup) (h : ∀ m ∈ ms, Distinct m.2) :
    Distinct (.object ms)

theorem Distinct.item {items : List Json} (h : Distinct (.array items)) :
    ∀ v ∈ items, v.Distinct := by
  cases h with
  | array h => exact h

theorem Distinct.names_nodup (h : Distinct (.object ms)) : (names ms).Nodup := by
  cases h with
  | object hNames => exact hNames

theorem Distinct.member (h : Distinct (.object ms)) : ∀ m ∈ ms, m.2.Distinct := by
  cases h with
  | object _ h => exact h

theorem distinct_canonical (v : Json) : v.canonical.Distinct := by
  induction v using induction_on_parts with
  | null => exact .null
  | bool b => exact .bool b
  | number n => exact .number n
  | string s => exact .string s
  | array items ih =>
    rw [canonical_array]
    exact .array (List.forall_mem_map.mpr ih)
  | object ms ih =>
    rw [canonical_object]
    refine .object (names_sortMembers_nodup _) fun m hm => ?_
    obtain ⟨n, hn, rfl⟩ := List.mem_map.mp (mem_of_mem_sortMembers hm)
    exact ih n hn

theorem Distinct.depth_canonical {v : Json} (h : v.Distinct) : v.canonical.depth = v.depth := by
  refine le_antisymm (depth_canonical_le v) ?_
  induction v using induction_on_parts with
  | array items ih =>
    rw [canonical_array]
    refine Nat.succ_le_succ (depthOfItems_le_iff.mpr fun v hv => ?_)
    exact (ih v hv (h.item v hv)).trans (depth_le_depthOfItems (List.mem_map_of_mem hv))
  | object ms ih =>
    rw [canonical_object]
    have hPerm : (sortMembers (ms.map canonicalMember)).Perm (ms.map canonicalMember) :=
      sortMembers_perm (names_map_canonicalMember ms ▸ h.names_nodup)
    refine Nat.succ_le_succ (depthOfMembers_le_iff.mpr fun m hm => ?_)
    exact (ih m hm (h.member m hm)).trans
      (depth_le_depthOfMembers (hPerm.mem_iff.mpr (List.mem_map_of_mem hm)))
  | _ => exact le_rfl

/-! ## Alike values -/

/-- Neither object names a member twice, and their members are the same but for their order and
that of the members below. -/
structure AlikeMembers (ms ns : List (String × Json)) : Prop where
  left : (Json.object ms).Distinct
  right : (Json.object ns).Distinct
  perm : (ms.map canonicalMember).Perm (ns.map canonicalMember)

structure Alike (v w : Json) : Prop where
  left : v.Distinct
  right : w.Distinct
  canonical_eq : v.canonical = w.canonical

theorem Alike.refl {v : Json} (h : v.Distinct) : Alike v v := ⟨h, h, rfl⟩

theorem Alike.canonical {v : Json} (h : v.Distinct) : Alike v.canonical v :=
  ⟨distinct_canonical v, h, canonical_canonical v⟩

theorem Alike.depth_eq {v w : Json} (h : Alike v w) : v.depth = w.depth := by
  rw [← h.left.depth_canonical, h.canonical_eq, h.right.depth_canonical]

theorem Alike.bool {b : Bool} (h : Alike v (.bool b)) : v = .bool b := by
  have hEq := h.canonical_eq
  cases v <;> simp_all [Json.canonical]

theorem Alike.string {s : String} (h : Alike v (.string s)) : v = .string s := by
  have hEq := h.canonical_eq
  cases v <;> simp_all [Json.canonical]

theorem forall₂_alike {vs ws : List Json} (hLeft : ∀ v ∈ vs, v.Distinct)
    (hRight : ∀ w ∈ ws, w.Distinct) (h : vs.map Json.canonical = ws.map Json.canonical) :
    List.Forall₂ Alike vs ws := by
  induction vs generalizing ws with
  | nil => rw [List.map_eq_nil_iff.mp h.symm]; exact .nil
  | cons v r ih =>
    obtain ⟨w, ws, rfl, hHead, hTail⟩ := List.map_eq_cons_iff.mp h.symm
    rw [List.forall_mem_cons] at hLeft hRight
    exact .cons ⟨hLeft.1, hRight.1, hHead.symm⟩ (ih hLeft.2 hRight.2 hTail.symm)

theorem Alike.array {items : List Json} (h : Alike v (.array items)) :
    ∃ found, v = .array found ∧ List.Forall₂ Alike found items := by
  obtain ⟨hLeft, hRight, hEq⟩ := h
  rw [canonical_array] at hEq
  cases v with
  | array found =>
    rw [canonical_array, Json.array.injEq] at hEq
    exact ⟨found, rfl, forall₂_alike hLeft.item hRight.item hEq⟩
  | _ => simp_all [Json.canonical]

theorem Alike.object (h : Alike v (.object ns)) : ∃ ms, v = .object ms ∧ AlikeMembers ms ns := by
  obtain ⟨hLeft, hRight, hEq⟩ := h
  rw [canonical_object] at hEq
  cases v with
  | object ms =>
    refine ⟨ms, rfl, hLeft, hRight, ?_⟩
    rw [canonical_object, Json.object.injEq] at hEq
    calc ms.map canonicalMember
      List.Perm _ (sortMembers (ms.map canonicalMember)) :=
        (sortMembers_perm (names_map_canonicalMember ms ▸ hLeft.names_nodup)).symm
      _ = sortMembers (ns.map canonicalMember) := hEq
      List.Perm _ (ns.map canonicalMember) :=
        sortMembers_perm (names_map_canonicalMember ns ▸ hRight.names_nodup)
  | _ => simp_all [Json.canonical]

namespace AlikeMembers

theorem of_perm {os : List (String × Json)} (h : AlikeMembers ms ns) (hp : ns.Perm os) :
    AlikeMembers ms os where
  left := h.left
  right := .object ((hp.map _).nodup_iff.mp h.right.names_nodup)
    fun m hm => h.right.member m (hp.mem_iff.mpr hm)
  perm := h.perm.trans (hp.map _)

theorem filter (p : String → Bool) (h : AlikeMembers ms ns) :
    AlikeMembers (ms.filter fun m => p m.1) (ns.filter fun m => p m.1) where
  left := .object (h.left.names_nodup.sublist (List.filter_sublist.map _))
    fun m hm => h.left.member m (List.mem_of_mem_filter hm)
  right := .object (h.right.names_nodup.sublist (List.filter_sublist.map _))
    fun m hm => h.right.member m (List.mem_of_mem_filter hm)
  perm := by
    have hFilter := h.perm.filter fun m => p m.1
    rwa [List.filter_map, List.filter_map] at hFilter

theorem eq_nil (h : AlikeMembers ms []) : ms = [] := by
  simpa using h.perm

theorem eq_singleton {w : Json} (h : AlikeMembers ms [(name, w)]) :
    ∃ v, ms = [(name, v)] ∧ Alike v w := by
  have hPerm := List.perm_singleton.mp h.perm
  obtain ⟨⟨found, v⟩, rfl, hEq⟩ := List.map_eq_singleton_iff.mp hPerm
  obtain ⟨rfl, hValue⟩ := Prod.mk.inj hEq
  have hLeft := h.left.member _ List.mem_cons_self
  have hRight := h.right.member _ List.mem_cons_self
  exact ⟨v, rfl, hLeft, hRight, hValue⟩

end AlikeMembers

/-! ## Tidy values -/

/-- Entities are written without nulls, numbers and repeated names. -/
inductive Tidy : Json → Prop
  | bool (b : Bool) : Tidy (.bool b)
  | string (s : String) : Tidy (.string s)
  | array {items : List Json} (h : ∀ v ∈ items, Tidy v) : Tidy (.array items)
  | object {ms : List (String × Json)} (hNames : (names ms).Nodup) (h : ∀ m ∈ ms, Tidy m.2) :
    Tidy (.object ms)

theorem Tidy.distinct (h : v.Tidy) : v.Distinct := by
  induction h with
  | bool b => exact .bool b
  | string s => exact .string s
  | array _ ih => exact .array ih
  | object hNames _ ih => exact .object hNames ih

theorem Tidy.canonical (h : v.Tidy) : v.canonical.Tidy := by
  induction h with
  | bool b => exact .bool b
  | string s => exact .string s
  | array _ ih =>
    rw [canonical_array]
    exact .array (List.forall_mem_map.mpr ih)
  | object _ _ ih =>
    rw [canonical_object]
    refine .object (names_sortMembers_nodup _) fun m hm => ?_
    obtain ⟨n, hn, rfl⟩ := List.mem_map.mp (mem_of_mem_sortMembers hm)
    exact ih n hn

end Json

end AssetShell
