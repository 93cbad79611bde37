import AssetShell.Interchange.Reference
import AssetShell.Proofs.Json.Canonical
import AssetShell.Proofs.Outcome

/-!
# Codecs

A codec joins a decoder with the form in which its things are written and with the references that
they hold. A lawful codec decodes what it has written, whatever the order of the members; it never
writes a thing deeper than the value it came from, and each reference of a decoded thing was decoded
from a part of the source, where its chain was checked.
-/

namespace AssetShell

namespace Json

/-! ## Parts of a source -/

def parts : Json → List Json
  | .array items => items
  | .object ms => ms.map Prod.snd
  | _ => []

theorem depth_lt_of_mem_parts {v w : Json} (h : w ∈ v.parts) : w.depth < v.depth := by
  cases v with
  | array items => exact Nat.lt_succ_of_le (depth_le_depthOfItems h)
  | object ms =>
    obtain ⟨m, hm, rfl⟩ := List.mem_map.mp h
    exact Nat.lt_succ_of_le (depth_le_depthOfMembers hm)
  | _ => exact absurd h List.not_mem_nil

/-- Some part of the value, at any depth, decodes to the reference. -/
inductive Holds (r : Reference) : Json → Prop
  | here {held : Held} {v : Json} (h : Reference.decoder.value held v = .ok r) : Holds r v
  | inside {v w : Json} (hw : w ∈ v.parts) (h : Holds r w) : Holds r v

end Json

namespace Outline

def parts : Outline → List Outline
  | .array items _ => items
  | .object members _ => members.map Prod.snd
  | _ => []

/-- Some part of the text decodes to the reference, by itself or as a value that was set aside. -/
inductive Holds (r : Reference) : Outline → Prop
  | here {levels : Nat} {o : Outline} (h : Reference.decoder.text levels o = .ok r) : Holds r o
  | inside {o p : Outline} (hp : p ∈ o.parts) (h : Holds r p) : Holds r o
  | aside {levels : Nat} {o : Outline} {v : Json} (hv : o.value? levels = some v)
    (h : Json.Holds r v) : Holds r o

end Outline

/-! ## Codecs of values -/

structure Codec (α : Type) where
  decoder : Decoder α
  write : α → Json
  references : α → List Reference

namespace Codec

variable {α β : Type} {n : Nat}

/-- Laws of a codec, where only what is written less than `n` deep must be tidy and restored. -/
structure Lawful (c : Codec α) (n : Nat) : Prop where
  tidy : ∀ a, (c.write a).depth < n → (c.write a).Tidy
  restores : ∀ a, (c.write a).depth < n → ∀ held v, v.Alike (c.write a) →
    c.decoder.value held v = .ok a
  depth_le : ∀ held v a, c.decoder.value held v = .ok a → (c.write a).depth ≤ v.depth
  of_value : ∀ held v a, c.decoder.value held v = .ok a → ∀ r ∈ c.references a, v.Holds r
  of_text : ∀ levels o a, c.decoder.text levels o = .ok a → ∀ r ∈ c.references a, o.Holds r

def string : Codec String := ⟨.string, .string, fun _ => []⟩

def bool : Codec Bool := ⟨.bool, .bool, fun _ => []⟩

def list (c : Codec α) : Codec (List α) :=
  ⟨c.decoder.list, fun as => .array (as.map c.write), fun as => as.flatMap c.references⟩

/-- Things that are written as strings and hold no references. -/
def worded (d : Decoder α) (word : α → String) : Codec α :=
  ⟨d, fun a => .string (word a), fun _ => []⟩

theorem worded_lawful {d : Decoder α} {word : α → String}
    (h : ∀ a held, d.value held (.string (word a)) = .ok a) : (worded d word).Lawful n where
  tidy a _ := .string (word a)
  restores a _ held v hv := by
    rw [hv.string]
    exact h a held
  depth_le _ v _ _ := Nat.zero_le v.depth
  of_value _ _ _ _ _ hr := absurd hr List.not_mem_nil
  of_text _ _ _ _ _ hr := absurd hr List.not_mem_nil

@[simp] theorem string_lawful : string.Lawful n :=
  (worded_lawful fun _ _ => rfl : (worded .string id).Lawful n)

@[simp] theorem bool_lawful : bool.Lawful n where
  tidy b _ := .bool b
  restores b _ held v hv := by
    rw [hv.bool]
    rfl
  depth_le _ v _ _ := Nat.zero_le v.depth
  of_value _ _ _ _ _ hr := absurd hr List.not_mem_nil
  of_text _ _ _ _ _ hr := absurd hr List.not_mem_nil

theorem pick_eq_ok {name : α → String} {all : List α} (hAll : ∀ a, a ∈ all)
    (hName : ∀ a b, name a = name b → a = b) (a : α) : Decoder.pick name all (name a) = .ok a := by
  have hFind : (all.find? fun b => name b = name a) = some a := by
    have hSome : (all.find? fun b => name b = name a).isSome :=
      List.find?_isSome.mpr ⟨a, hAll a, decide_eq_true rfl⟩
    obtain ⟨b, hb⟩ := Option.isSome_iff_exists.mp hSome
    rw [hb, hName b a (of_decide_eq_true (List.find?_some hb :))]
  rw [Decoder.pick, hFind]

theorem named_lawful {name : α → String} {all : List α} (hAll : ∀ a, a ∈ all)
    (hName : ∀ a b, name a = name b → a = b) : (worded (.named name all) name).Lawful n :=
  worded_lawful fun a _ => pick_eq_ok hAll hName a

theorem Lawful.mono {c : Codec α} {k : Nat} (h : c.Lawful n) (hk : k ≤ n) : c.Lawful k :=
  { h with
    tidy := fun a ha => h.tidy a (Nat.lt_of_lt_of_le ha hk)
    restores := fun a ha => h.restores a (Nat.lt_of_lt_of_le ha hk) }

end Codec

/-! ## Lists -/

namespace Codec

variable {α : Type} {c : Codec α} {n : Nat}

theorem list_restores (h : c.Lawful n) {as : List α}
    (hDepth : ∀ a ∈ as, (c.write a).depth < n) {items : List Json}
    (hItems : List.Forall₂ Json.Alike items (as.map c.write)) (held : Held) :
    items.mapM (c.decoder.value held) = .ok as := by
  refine mapM_eq_ok_iff.mpr ?_
  induction as generalizing items with
  | nil => rw [List.forall₂_nil_right_iff.mp hItems]; exact .nil
  | cons a r ih =>
    obtain ⟨v, vs, hv, hvs, rfl⟩ := List.forall₂_cons_right_iff.mp hItems
    rw [List.forall_mem_cons] at hDepth
    exact .cons (h.restores a hDepth.1 held v hv) (ih hDepth.2 hvs)

theorem list_value_eq_ok_iff {d : Decoder α} {held : Held} {v : Json} {as : List α} :
    d.list.value held v = .ok as ↔
      ∃ vs, v = .array vs ∧ List.Forall₂ (fun v a => d.value held v = .ok a) vs as := by
  constructor
  · intro h
    simp only [Decoder.list] at h
    split at h
    · exact ⟨_, rfl, mapM_eq_ok_iff.mp h⟩
    · cases h
  · rintro ⟨vs, rfl, h⟩
    exact mapM_eq_ok_iff.mpr h

theorem list_text_eq_ok_iff {d : Decoder α} {levels : Nat} {o : Outline} {as : List α} :
    d.list.text levels o = .ok as ↔
      ∃ os, o = .array os true ∧ 0 < levels ∧
        List.Forall₂ (fun o a => d.text (levels - 1) o = .ok a) os as := by
  constructor
  · intro h
    simp only [Decoder.list] at h
    split at h
    · split at h
      · cases h
      · rename_i os closed hLevels
        obtain ⟨found, hItems, h⟩ := exists_of_bind_eq_ok h
        cases closed with
        | false => cases h
        | true =>
          cases h
          exact ⟨os, rfl, Nat.pos_of_ne_zero hLevels, mapM_eq_ok_iff.mp hItems⟩
    · cases h
  · rintro ⟨os, rfl, hLevels, h⟩
    simp only [Decoder.list, if_neg (Nat.ne_of_gt hLevels), mapM_eq_ok_iff.mpr h]
    rfl

theorem depth_lt_of_list {as : List α} (h : ((list c).write as).depth < n + 1) :
    ∀ a ∈ as, (c.write a).depth < n := by
  intro a ha
  have hItem := Json.depth_le_depthOfItems (List.mem_map_of_mem (f := c.write) ha)
  exact Nat.lt_of_le_of_lt hItem (Nat.lt_of_succ_lt_succ h)

/-- Things in a list nest one level less than the list. -/
theorem list_lawful_succ (h : c.Lawful n) : (list c).Lawful (n + 1) where
  tidy as hDepth :=
    .array (List.forall_mem_map.mpr fun a ha => h.tidy a (depth_lt_of_list hDepth a ha))
  restores as hDepth held v hv := by
    obtain ⟨items, rfl, hItems⟩ := hv.array
    exact list_restores h (depth_lt_of_list hDepth) hItems held
  depth_le held v as hv := by
    obtain ⟨vs, rfl, hItems⟩ := list_value_eq_ok_iff.mp hv
    refine Nat.succ_le_succ (Json.depthOfItems_le_iff.mpr (List.forall_mem_map.mpr fun a ha => ?_))
    obtain ⟨w, hw, hDecode⟩ := exists_of_forall₂ hItems ha
    exact (h.depth_le held w a hDecode).trans (Json.depth_le_depthOfItems hw)
  of_value held v as hv r hr := by
    obtain ⟨a, ha, hr⟩ := List.mem_flatMap.mp hr
    obtain ⟨vs, rfl, hItems⟩ := list_value_eq_ok_iff.mp hv
    obtain ⟨w, hw, hDecode⟩ := exists_of_forall₂ hItems ha
    exact .inside hw (h.of_value held w a hDecode r hr)
  of_text levels o as ho r hr := by
    obtain ⟨a, ha, hr⟩ := List.mem_flatMap.mp hr
    obtain ⟨os, rfl, -, hItems⟩ := list_text_eq_ok_iff.mp ho
    obtain ⟨p, hp, hDecode⟩ := exists_of_forall₂ hItems ha
    exact .inside hp (h.of_text _ p a hDecode r hr)

theorem list_lawful (h : c.Lawful n) : (list c).Lawful n := (list_lawful_succ h).mono n.le_succ

end Codec

end AssetShell
