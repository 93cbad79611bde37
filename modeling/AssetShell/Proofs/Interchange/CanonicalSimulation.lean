import AssetShell.Proofs.Interchange.Simulation

/-!
# Canonical forms as simulations

The canonical form of a value simulates the value: of names that are asked for once, it has the same
values. The other way round it may hide a repeated name; but values that are alike, in which no name
is repeated, simulate each other.
-/

namespace AssetShell

theorem Positions.of_forall₂ {ν : Type} {S : ν → ν → Prop} {slots : List Slot} {vs ws : List ν}
    (h : List.Forall₂ S vs ws) : Positions (fun _ => S) slots vs ws := by
  induction h generalizing slots with
  | nil => exact .done slots
  | cons hFirst _ ih =>
    cases slots with
    | nil => exact .surplus
    | cons s slots => exact .next hFirst ih

namespace Json

variable {v w : Json} {ms ns : List (String × Json)}

/-! ## The canonical form -/

theorem mem_names_insertMember_iff {n name : String} {v : Json} :
    n ∈ names (insertMember name v ms) ↔ n = name ∨ n ∈ names ms := by
  induction ms with
  | nil => simp [insertMember]
  | cons entry r ih =>
    obtain ⟨other, w⟩ := entry
    simp only [insertMember]
    split
    · simp
    · split
      · rename_i hEq
        simp [hEq]
      · simp only [names, List.map_cons, List.mem_cons] at ih ⊢
        rw [ih, or_left_comm]

theorem mem_names_foldl_insertMember_iff {n : String} {sorted : List (String × Json)} :
    n ∈ names (ms.foldl (fun sorted (name, v) => insertMember name v sorted) sorted) ↔
      n ∈ names sorted ∨ n ∈ names ms := by
  induction ms generalizing sorted with
  | nil => simp
  | cons entry r ih =>
    rw [List.foldl_cons, ih, mem_names_insertMember_iff]
    simp only [names, List.map_cons, List.mem_cons]
    rw [or_assoc, or_left_comm]

theorem mem_names_sortMembers_iff {n : String} : n ∈ names (sortMembers ms) ↔ n ∈ names ms :=
  mem_names_foldl_insertMember_iff.trans (or_iff_right List.not_mem_nil)

section Filter

variable {q : String → Bool}

theorem filter_sortMembers_of_nil (h : (ms.filter fun m => q m.1) = []) :
    ((sortMembers ms).filter fun m => q m.1) = [] :=
  List.filter_eq_nil_iff.mpr fun m hm =>
    List.filter_eq_nil_iff.mp h m (mem_of_mem_sortMembers hm)

theorem filter_sortMembers_of_singleton {m : String × Json}
    (h : (ms.filter fun m => q m.1) = [m]) : ((sortMembers ms).filter fun m => q m.1) = [m] := by
  have hSame : ∀ e ∈ sortMembers ms, q e.1 = true → e = m := fun e he hq =>
    List.mem_singleton.mp (h ▸ List.mem_filter.mpr ⟨mem_of_mem_sortMembers he, hq⟩)
  have hNodup : ((sortMembers ms).filter fun m => q m.1).Nodup :=
    (List.Nodup.of_map _ (names_sortMembers_nodup ms)).filter _
  obtain ⟨hm, hq⟩ := List.mem_filter.mp (h ▸ List.mem_cons_self : m ∈ ms.filter fun m => q m.1)
  obtain ⟨e, he, hName⟩ :=
    List.mem_map.mp (mem_names_sortMembers_iff.mpr (List.mem_map_of_mem (f := Prod.fst) hm))
  obtain rfl := hSame e he (hName ▸ hq)
  refine List.perm_singleton.mp
    ((List.perm_ext_iff_of_nodup hNodup (List.nodup_singleton e)).mpr fun x => ?_)
  rw [List.mem_filter, List.mem_singleton]
  constructor
  · exact fun hx => hSame x hx.1 hx.2
  · rintro rfl
    exact ⟨he, hq⟩

end Filter

theorem filter_map_canonicalMember (q : String → Bool) (ms : List (String × Json)) :
    ((ms.map canonicalMember).filter fun m => q m.1) =
      (ms.filter fun m => q m.1).map canonicalMember :=
  List.filter_map ..

theorem carried_canonical (p : Pattern) (asked : List String) (ms : List (String × Json)) :
    Carried some (fun _ v w => w = v.canonical) p (valuesUnder asked ms)
      (valuesUnder asked (sortMembers (ms.map canonicalMember))) := by
  have hMap := filter_map_canonicalMember (fun name => name ∈ asked) ms
  rw [valuesUnder, valuesUnder]
  rcases hUnder : ms.filter fun m => m.1 ∈ asked with _ | ⟨m, _ | ⟨m', r⟩⟩
  · rw [hUnder] at hMap
    rw [hUnder, filter_sortMembers_of_nil (q := fun name => name ∈ asked) hMap]
    exact .absent
  · rw [hUnder] at hMap
    rw [hUnder, filter_sortMembers_of_singleton (q := fun name => name ∈ asked) hMap]
    exact .single rfl
  · rw [hUnder]
    exact .several

theorem canonical_of_leaf (h : v.parts = []) : v.canonical = v := by
  cases v with
  | array items =>
    obtain rfl : items = [] := h
    rfl
  | object ms =>
    obtain rfl : ms = [] := List.map_eq_nil_iff.mp h
    rfl
  | _ => rfl

theorem Plain.canonical_eq (h : v.Plain) : v.canonical = v := by
  cases h with
  | leaf h => exact canonical_of_leaf h
  | word h =>
    rw [canonical_object, List.map_singleton, canonicalMember, canonical_of_leaf h]
    rfl

theorem canonical_simulation : Simulation fun _ v w => w = v.canonical where
  plain v w h hPlain := h.trans hPlain.canonical_eq
  datatype tag d w h hTag := ⟨tag, h, hTag⟩
  null p w h := h
  present p v w h hPresent := by
    refine ⟨?_, h⟩
    rintro rfl
    cases v with
    | null => exact hPresent rfl
    | _ => cases h
  list p vs w h := ⟨_, h.trans (canonical_array vs),
    List.forall₂_map_right_iff.mpr (List.forall₂_same.mpr fun _ _ => rfl)⟩
  object p ms w slots h _ :=
    ⟨_, h.trans (canonical_object ms), fun s _ => carried_canonical s.pattern s.names ms⟩
  positions k vs w h := ⟨_, h.trans (canonical_array vs),
    .of_forall₂ (List.forall₂_map_right_iff.mpr (List.forall₂_same.mpr fun _ _ => rfl))⟩

/-! ## Alike values -/

theorem AlikeMembers.symm (h : AlikeMembers ms ns) : AlikeMembers ns ms :=
  ⟨h.right, h.left, h.perm.symm⟩

theorem Alike.symm (h : Alike v w) : Alike w v := ⟨h.right, h.left, h.canonical_eq.symm⟩

theorem Alike.eq_of_leaf (h : Alike v w) (hw : w.parts = []) : v = w := by
  cases w with
  | array items =>
    obtain rfl : items = [] := hw
    obtain ⟨found, rfl, hItems⟩ := h.array
    rw [List.forall₂_nil_right_iff.mp hItems]
  | object ms =>
    obtain rfl : ms = [] := List.map_eq_nil_iff.mp hw
    obtain ⟨found, rfl, hMembers⟩ := h.object
    rw [hMembers.eq_nil]
  | _ =>
    have hEq := h.canonical_eq
    cases v <;> simp_all [Json.canonical]

theorem Alike.eq_of_plain (h : Alike v w) (hw : w.Plain) : v = w := by
  cases hw with
  | leaf hw => exact h.eq_of_leaf hw
  | word hw =>
    obtain ⟨found, rfl, hMembers⟩ := h.object
    obtain ⟨u, rfl, hu⟩ := hMembers.eq_singleton
    rw [hu.eq_of_leaf hw]

theorem carried_alike (h : AlikeMembers ms ns) (p : Pattern) (asked : List String) :
    Carried some (fun _ => Alike) p (valuesUnder asked ms) (valuesUnder asked ns) := by
  have hUnder := h.filter fun name => name ∈ asked
  rw [valuesUnder, valuesUnder]
  rcases hFound : ms.filter fun m => m.1 ∈ asked with _ | ⟨⟨name, v⟩, _ | ⟨m', r⟩⟩
  · rw [hFound] at hUnder
    rw [hFound, hUnder.symm.eq_nil]
    exact .absent
  · rw [hFound] at hUnder
    obtain ⟨w, hSingle, hw⟩ := hUnder.symm.eq_singleton
    rw [hFound, hSingle]
    exact .single hw.symm
  · rw [hFound]
    exact .several

theorem alike_simulation : Simulation fun _ => Alike where
  plain v w h hPlain := h.symm.eq_of_plain hPlain
  datatype tag d w h hTag := ⟨tag, h.symm.string, hTag⟩
  null p w h := h.symm.eq_of_leaf rfl
  present p v w h hPresent := by
    refine ⟨?_, h⟩
    rintro rfl
    exact hPresent (h.eq_of_leaf rfl)
  list p vs w h := by
    obtain ⟨ws, rfl, hItems⟩ := h.symm.array
    exact ⟨ws, rfl, hItems.flip.imp fun _ _ hItem => hItem.symm⟩
  object p ms w slots h _ := by
    obtain ⟨ns, rfl, hMembers⟩ := h.symm.object
    exact ⟨ns, rfl, fun s _ => carried_alike hMembers.symm s.pattern s.names⟩
  positions k vs w h := by
    obtain ⟨ws, rfl, hItems⟩ := h.symm.array
    exact ⟨ws, rfl, .of_forall₂ (hItems.flip.imp fun _ _ hItem => hItem.symm)⟩

end Json

end AssetShell
