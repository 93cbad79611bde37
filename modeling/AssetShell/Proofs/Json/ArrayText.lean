import AssetShell.Proofs.Json.InnerTokens
import AssetShell.Proofs.Json.PrintedText

/-!
# Texts of arrays

Texts with a value that stand between commas in brackets are read as the array of their values. The
groups that were open before a text was begun wait below its own, and nothing in the text reaches
them until its value is complete.
-/

namespace AssetShell

namespace Outline

variable {frame : Frame} {frames inner outer : List Frame} {o : Outline} {t : Token}
  {ts rest : List Token} {levels limit : Nat} {v : Json}

/-! ## Groups below -/

/-- The same step with more groups below. -/
def Advance.above (outer : List Frame) : Advance → Advance
  | .go frames => .go (frames ++ outer)
  | .finish v frames => .finish v (frames ++ outer)
  | .stop => .stop

/-- A step in an open group looks at that group alone. -/
theorem advance_cons_append (frame : Frame) (inner outer : List Frame) (t : Token) :
    advance (frame :: inner ++ outer) t = (advance (frame :: inner) t).above outer := by
  rcases frame with ⟨held, place⟩ | ⟨held, place⟩ <;> cases place <;> cases t <;> rfl

/-- Where a value is wanted, one may begin as at the start of a text. -/
theorem advance_append (hOuter : wantsValue outer = true) (h : advance inner t ≠ .stop) :
    advance (inner ++ outer) t = (advance inner t).above outer := by
  cases inner with
  | cons frame inner => exact advance_cons_append frame inner outer t
  | nil =>
    rw [List.nil_append]
    cases t with
    | string s => exact advance_string hOuter s
    | openObject | openArray | null | bool | number =>
      rw [advance, if_pos hOuter]
      rfl
    | _ => exact absurd rfl h

theorem stray_not_mem_of_read (h : read frames ts = (o, true)) : .stray ∉ ts := by
  induction ts generalizing frames with
  | nil => exact List.not_mem_nil
  | cons t ts ih =>
    rw [read] at h
    rw [List.mem_cons, not_or]
    constructor
    · rintro rfl
      cases h
    · split at h
      · exact ih h
      · rw [List.isEmpty_iff.mp (Prod.mk.inj h).2]
        exact List.not_mem_nil
      · exact ih h
      · cases h

theorem read_append (h : read inner ts = (o, true)) (hWants : wantsValue (frame :: outer) = true)
    (rest : List Token) :
    read (inner ++ frame :: outer) (ts ++ rest) = read (frame.put o :: outer) rest := by
  induction ts generalizing inner with
  | nil => cases h
  | cons t ts ih =>
    have hAbove : advance inner t ≠ .stop →
        advance (inner ++ frame :: outer) t = (advance inner t).above (frame :: outer) :=
      advance_append hWants
    rw [read] at h
    rw [List.cons_append, read]
    cases hStep : advance inner t with
    | stop =>
      rw [hStep] at h
      cases h
    | go frames =>
      rw [hStep] at h hAbove
      rw [hAbove Advance.noConfusion]
      exact ih h
    | finish v frames =>
      rw [hStep] at h hAbove
      rw [hAbove Advance.noConfusion]
      cases frames with
      | nil =>
        obtain ⟨rfl, hEnd⟩ := Prod.mk.inj h
        rw [List.isEmpty_iff.mp hEnd]
        rfl
      | cons next frames => exact ih h

/-- A text with a value is read inside an open group as by itself. -/
theorem readsInside_of_readChars {cs : List Char} (h : readChars [] cs = (o, true)) :
    ReadsInside Numeral.Ends cs o := by
  intro frame outer rest hWants hEnds
  rw [readChars, Token.ofChars_append hEnds (stray_not_mem_of_read h)]
  exact read_append h hWants _

/-! ## Levels to spare -/

/-- A value is found with any number of levels down to its depth. -/
theorem value?_of_depth_le (h : o.value? levels = some v) (hDepth : v.depth ≤ limit) :
    o.value? limit = some v := by
  induction levels generalizing o v limit with
  | zero =>
    cases o with
    | array os closed => exact absurd (value?_array.mp h).2.1 (Nat.lt_irrefl 0)
    | object ms closed => exact absurd (value?_object.mp h).2.1 (Nat.lt_irrefl 0)
    | _ => exact h
  | succ levels ih =>
    cases o with
    | array os closed =>
      obtain ⟨rfl, -, vs, rfl, hItems⟩ := value?_array.mp h
      rw [Json.depth, Nat.succ_le_iff] at hDepth
      have hLess := Json.depthOfItems_le_iff.mp (Nat.le_sub_one_of_lt hDepth)
      have hEach := (List.forall₂_and_left vs os).mpr ⟨hLess, hItems.flip⟩
      exact value?_array.mpr ⟨rfl, Nat.zero_lt_of_lt hDepth, vs, rfl,
        (hEach.imp fun v o hv => ih hv.2 hv.1).flip⟩
    | object ms closed =>
      obtain ⟨rfl, -, ws, rfl, hMembers⟩ := value?_object.mp h
      rw [Json.depth, Nat.succ_le_iff] at hDepth
      have hLess := Json.depthOfMembers_le_iff.mp (Nat.le_sub_one_of_lt hDepth)
      have hEach := (List.forall₂_and_left ws ms).mpr ⟨hLess, hMembers.flip⟩
      exact value?_object.mpr ⟨rfl, Nat.zero_lt_of_lt hDepth, ws, rfl,
        (hEach.imp fun w m hm => And.intro hm.2.1 (ih hm.2.2 hm.1)).flip⟩
    | _ => exact h

end Outline

namespace Json

/-- The text of an array of the values of these texts. -/
def arrayText (ts : List String) : String := "[" ++ ",".intercalate ts ++ "]"

theorem toList_arrayText (ts : List String) :
    (arrayText ts).toList = '[' :: ([','].intercalate (ts.map String.toList) ++ [']']) := by
  simp [arrayText, String.toList_intercalate]

theorem outline_arrayText {ts : List String} {os : List Outline}
    (h : List.Forall₂ (fun t o => Outline.ofText t = (o, true)) ts os) :
    Outline.ofText (arrayText ts) = (.array os true, true) := by
  have hItems : List.Forall₂ (Outline.ReadsInside Numeral.Ends) (ts.map String.toList) os :=
    List.forall₂_map_left_iff.mpr (h.imp fun t o ho => Outline.readsInside_of_readChars ho)
  rw [Outline.ofText, toList_arrayText]
  refine (Outline.readChars_array Numeral.ends_comma hItems [] (by simp) rfl
    (Numeral.ends_closeArray [])).trans ?_
  rw [Outline.deliver, Token.ofChars_of_dropWhile_nil rfl]
  rfl

theorem rawOfText?_eq_some_iff {t : String} {v : Json} :
    rawOfText? t = some v ↔ ∃ o, Outline.ofText t = (o, true) ∧ o.value? maxLevels = some v := by
  rw [rawOfText?]
  constructor
  · intro h
    simp only at h
    split at h
    · rename_i hAlone
      exact ⟨_, Prod.ext rfl hAlone, h⟩
    · cases h
  · rintro ⟨o, hRead, hValue⟩
    rw [hRead]
    exact hValue

/-- An array nests one level deeper than its items. -/
theorem rawOfText?_arrayText {ts : List String} {vs : List Json}
    (h : List.Forall₂ (fun t v => rawOfText? t = some v ∧ v.depth < maxLevels) ts vs) :
    rawOfText? (arrayText ts) = some (.array vs) := by
  obtain ⟨os, hOutlines, hValues⟩ : ∃ os,
      List.Forall₂ (fun t o => Outline.ofText t = (o, true)) ts os ∧
        List.Forall₂ (fun o v => o.value? (maxLevels - 1) = some v) os vs := by
    induction h with
    | nil => exact ⟨[], .nil, .nil⟩
    | cons hFirst _ ih =>
      obtain ⟨o, hOutline, hValue⟩ := rawOfText?_eq_some_iff.mp hFirst.1
      obtain ⟨os, hOutlines, hValues⟩ := ih
      have hSpare := Outline.value?_of_depth_le hValue (Nat.le_sub_one_of_lt hFirst.2)
      exact ⟨o :: os, .cons hOutline hOutlines, .cons hSpare hValues⟩
  exact rawOfText?_eq_some_iff.mpr ⟨_, outline_arrayText hOutlines,
    Outline.value?_array.mpr ⟨rfl, by decide, vs, rfl, hValues⟩⟩

/-- The items of the array are the values of the texts. -/
theorem exists_ofText?_arrayText {ts : List String}
    (h : ∀ t ∈ ts, ∃ v, rawOfText? t = some v ∧ v.depth < maxLevels) :
    ∃ items, ofText? (arrayText ts) = some (.array items) ∧
      List.Forall₂ (fun t w => ofText? t = some w) ts items := by
  obtain ⟨vs, hValues⟩ := Outline.exists_forall₂ h
  refine ⟨vs.map canonical, ?_, List.forall₂_map_right_iff.mpr (hValues.imp fun t v hv => ?_)⟩
  · rw [ofText?_eq_map_rawOfText?, rawOfText?_arrayText hValues, Option.map_some, canonical_array]
  · rw [ofText?_eq_map_rawOfText?, hv.1, Option.map_some]

end Json

end AssetShell
