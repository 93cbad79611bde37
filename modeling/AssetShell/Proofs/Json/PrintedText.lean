import AssetShell.Proofs.Json.Canonical
import AssetShell.Proofs.Json.OutlineValue
import AssetShell.Proofs.Json.PrintedTokens
import Mathlib.Data.List.Forall2

/-!
# Reading printed text

A tidy value that was printed is read as the same value, in any layout whose line breaks are blanks.
The reader keeps the open groups on a stack: with one printed value it puts the outline of the value
into the innermost group that waits for one.
-/

namespace AssetShell

namespace Json

/-- Only blanks stand between the tokens. -/
structure Layout.Blank (l : Layout) : Prop where
  newline : ∀ level, ∀ c ∈ l.newline level, Token.isBlank c = true
  colon : ∃ blanks, l.colon = ':' :: blanks ∧ ∀ c ∈ blanks, Token.isBlank c = true

theorem Layout.compact_blank : Layout.compact.Blank where
  newline _ _ hc := absurd hc List.not_mem_nil
  colon := ⟨[], rfl, fun _ hc => absurd hc List.not_mem_nil⟩

theorem Layout.pretty_blank : Layout.pretty.Blank where
  newline level c hc := by
    rcases List.mem_cons.mp hc with rfl | hc
    · rfl
    · rw [List.eq_of_mem_replicate hc]
      rfl
  colon := ⟨[' '], rfl, fun c hc => by rw [List.mem_singleton.mp hc]; rfl⟩

end Json

namespace Outline

open Json (chars itemsChars membersChars Layout)

variable {l : Layout} {frames outer : List Frame} {o : Outline} {rest : List Char}

def readChars (frames : List Frame) (cs : List Char) : Outline × Bool :=
  read frames (Token.ofChars cs)

/-- What is read on when a value is complete. -/
def deliver (o : Outline) (frames : List Frame) (rest : List Char) : Outline × Bool :=
  match frames with
  | [] => (o, (Token.ofChars rest).isEmpty)
  | frame :: outer => readChars (frame.put o :: outer) rest

theorem read_of_go {t : Token} {ts : List Token} {next : List Frame}
    (h : advance frames t = .go next) : read frames (t :: ts) = read next ts := by
  rw [read, h]

theorem readChars_of_finish {t : Token} {cs : List Char}
    (hChars : Token.ofChars cs = t :: Token.ofChars rest)
    (h : advance frames t = .finish o outer) : readChars frames cs = o.deliver outer rest := by
  rw [readChars, hChars, read, h]
  cases outer <;> rfl

theorem readChars_blank_append {blanks : List Char} (h : ∀ c ∈ blanks, Token.isBlank c = true)
    (frames : List Frame) (cs : List Char) :
    readChars frames (blanks ++ cs) = readChars frames cs := by
  rw [readChars, Token.ofChars_blank_append h, readChars]

theorem advance_string (h : wantsValue frames = true) (s : Option String) :
    advance frames (.string s) = .finish (.string s) frames := by
  cases frames with
  | nil => rfl
  | cons frame outer =>
    cases frame with
    | array held place => simp [advance, h]
    | object held place =>
      cases place with
      | value name => simp [advance, h]
      | _ => cases h

/-- The outline of a printed value. -/
structure Prints (v : Json) (o : Outline) : Prop where
  value : ∀ levels, v.depth ≤ levels → o.value? levels = some v
  read : ∀ l : Layout, l.Blank → ∀ level frames rest, wantsValue frames = true →
    readChars frames (chars l level v ++ rest) = o.deliver frames rest

theorem prints_string (s : String) : Prints (.string s) (.string (some s)) where
  value _ _ := rfl
  read l _ level frames rest h := by
    rw [chars]
    exact readChars_of_finish (Token.ofChars_stringChars s rest) (advance_string h (some s))

theorem prints_bool (b : Bool) : Prints (.bool b) (.bool b) where
  value _ _ := rfl
  read l _ level frames rest h := by
    have hAdvance : advance frames (.bool b) = .finish (.bool b) frames := by
      rw [advance, if_pos h]
    cases b with
    | true =>
      rw [chars]
      exact readChars_of_finish (Token.ofChars_true rest) hAdvance
    | false =>
      rw [chars]
      exact readChars_of_finish (Token.ofChars_false rest) hAdvance

/-! ## Arrays -/

theorem values?_of_prints {items : List Json} {os : List Outline} (h : List.Forall₂ Prints items os)
    {levels : Nat} (hDepth : Json.depthOfItems items ≤ levels) :
    values? levels os = some items := by
  induction h with
  | nil => rw [values?]
  | cons hFirst _ ih =>
    rw [Json.depthOfItems, Nat.max_le] at hDepth
    rw [values?, hFirst.value levels hDepth.1, ih hDepth.2]

/-- Inside an open group these characters are read as one value, if what follows them allows it. -/
def ReadsInside (allowed : List Char → Prop) (cs : List Char) (o : Outline) : Prop :=
  ∀ frame outer rest, wantsValue (frame :: outer) = true → allowed rest →
    readChars (frame :: outer) (cs ++ rest) = readChars (frame.put o :: outer) rest

section Joined

variable {allowed : List Char → Prop} (hComma : ∀ r, allowed (',' :: r)) {css : List (List Char)}
  {os : List Outline}
include hComma

/-- The items of an array that has been opened, up to its end. -/
theorem readChars_joined {cs : List Char} (h : List.Forall₂ (ReadsInside allowed) (cs :: css) os)
    (held : List Outline) {place : ArrayPlace} (hPlace : place = .itemOrClose ∨ place = .item)
    (outer : List Frame) (hRest : allowed rest) :
    readChars (.array held place :: outer) ([','].intercalate (cs :: css) ++ rest) =
      readChars (.array (os.reverse ++ held) .commaOrClose :: outer) rest := by
  have hWants : wantsValue (.array held place :: outer) = true := by
    rcases hPlace with rfl | rfl
    · rfl
    · rfl
  induction css generalizing cs os held place with
  | nil =>
    obtain ⟨o, _, hcs, hNil, rfl⟩ := List.forall₂_cons_left_iff.mp h
    cases hNil
    rw [List.intercalate_singleton]
    exact hcs _ outer rest hWants hRest
  | cons ds css ih =>
    obtain ⟨o, os, hcs, hr, rfl⟩ := List.forall₂_cons_left_iff.mp h
    have hNext : readChars (.array (o :: held) .commaOrClose :: outer)
        (',' :: ([','].intercalate (ds :: css) ++ rest)) =
        readChars (.array (o :: held) .item :: outer) ([','].intercalate (ds :: css) ++ rest) := by
      rw [readChars, Token.ofChars_comma]
      exact read_of_go rfl
    rw [List.intercalate_cons_cons, List.append_assoc, List.append_assoc, List.singleton_append,
      hcs _ outer _ hWants (hComma _)]
    refine hNext.trans ((ih hr (o :: held) (.inr rfl) rfl).trans ?_)
    rw [List.reverse_cons, List.append_assoc, List.singleton_append]

theorem readChars_array (h : List.Forall₂ (ReadsInside allowed) css os) (blanks : List Char)
    (hBlanks : ∀ c ∈ blanks, Token.isBlank c = true) (hWants : wantsValue frames = true)
    (hEnd : allowed (blanks ++ ']' :: rest)) :
    readChars frames ('[' :: ([','].intercalate css ++ (blanks ++ ']' :: rest))) =
      deliver (.array os true) frames rest := by
  have hOpen (cs : List Char) :
      readChars frames ('[' :: cs) = readChars (.array [] .itemOrClose :: frames) cs := by
    rw [readChars, Token.ofChars_openArray]
    exact read_of_go (by rw [advance, if_pos hWants])
  rw [hOpen]
  cases h with
  | nil =>
    rw [List.intercalate_nil, List.nil_append, readChars_blank_append hBlanks]
    exact readChars_of_finish (Token.ofChars_closeArray rest) rfl
  | @cons cs o r os hcs hr =>
    have hClose : advance (.array (o :: os).reverse .commaOrClose :: frames) .closeArray =
        .finish (.array (o :: os) true) frames := by
      simp [advance]
    rw [readChars_joined hComma (.cons hcs hr) [] (.inl rfl) frames hEnd, List.append_nil,
      readChars_blank_append hBlanks]
    exact readChars_of_finish (Token.ofChars_closeArray rest) hClose

end Joined

theorem itemsChars_eq (l : Layout) (level : Nat) (items : List Json) :
    itemsChars l level items =
      [','].intercalate (items.map fun v => l.newline level ++ chars l level v) := by
  induction items with
  | nil => rfl
  | cons v r ih =>
    cases r with
    | nil => simp [itemsChars]
    | cons w r =>
      rw [itemsChars, ih]
      simp [List.intercalate_cons_cons]

theorem Prints.readsInside (hl : l.Blank) {v : Json} (h : Prints v o) (level : Nat) :
    ReadsInside (fun _ => True) (l.newline level ++ chars l level v) o := by
  intro frame outer rest hWants _
  rw [List.append_assoc, readChars_blank_append (hl.newline level), h.read l hl level _ rest hWants]
  rfl

theorem prints_array {items : List Json} {os : List Outline} (h : List.Forall₂ Prints items os) :
    Prints (.array items) (.array os true) where
  -- The items have one level less than the array.
  value levels hDepth := by
    have hItems : Json.depthOfItems items ≤ levels - 1 := Nat.le_sub_one_of_lt hDepth
    rw [value?, if_pos ⟨rfl, Nat.zero_lt_of_lt hDepth⟩, values?_of_prints h hItems, Option.map_some]
  read l hl level frames rest hWants := by
    have hItems : List.Forall₂ (ReadsInside fun _ => True)
        (items.map fun v => l.newline (level + 1) ++ chars l (level + 1) v) os :=
      List.forall₂_map_left_iff.mpr (h.imp fun v o hv => hv.readsInside hl (level + 1))
    cases items with
    | nil => exact readChars_array (fun _ => trivial) hItems [] (by simp) hWants trivial
    | cons v r =>
      rw [chars, itemsChars_eq, List.append_assoc, List.append_assoc, List.cons_append]
      exact readChars_array (fun _ => trivial) hItems _ (hl.newline level) hWants trivial

/-! ## Objects -/

/-- Two members with one name, one of them in a text. -/
def PrintsMember (m : String × Json) (p : Option String × Outline) : Prop :=
  p.1 = some m.1 ∧ Prints m.2 p.2

theorem memberValues?_of_prints {ms : List (String × Json)} {ps : List (Option String × Outline)}
    (h : List.Forall₂ PrintsMember ms ps) {levels : Nat}
    (hDepth : Json.depthOfMembers ms ≤ levels) : memberValues? levels ps = some ms := by
  induction h with
  | nil => rw [memberValues?]
  | @cons m p ms ps hFirst _ ih =>
    obtain ⟨name, v⟩ := m
    obtain ⟨found, o⟩ := p
    obtain ⟨rfl, hv⟩ := hFirst
    rw [Json.depthOfMembers, Nat.max_le] at hDepth
    have hValue : o.value? levels = some v := hv.value levels hDepth.1
    simp only [memberValues?, hValue, ih hDepth.2]

theorem readChars_member (hl : l.Blank) {name : String} {v : Json} (h : Prints v o) (level : Nat)
    {held : List (Option String × Outline)} {place : ObjectPlace}
    (hPlace : place = .nameOrClose ∨ place = .name) (outer : List Frame) (rest : List Char) :
    readChars (.object held place :: outer)
        (l.newline level ++ Json.stringChars name ++ l.colon ++ chars l level v ++ rest) =
      readChars (.object ((some name, o) :: held) .commaOrClose :: outer) rest := by
  obtain ⟨blanks, hColon, hBlanks⟩ := hl.colon
  have hName : ∀ cs, readChars (.object held place :: outer) (Json.stringChars name ++ cs) =
      readChars (.object held (.colon (some name)) :: outer) cs := by
    intro cs
    rw [readChars, Token.ofChars_stringChars]
    rcases hPlace with rfl | rfl
    · exact read_of_go rfl
    · exact read_of_go rfl
  have hMark : ∀ cs, readChars (.object held (.colon (some name)) :: outer) (':' :: cs) =
      readChars (.object held (.value (some name)) :: outer) cs := by
    intro cs
    rw [readChars, Token.ofChars_colon]
    exact read_of_go rfl
  rw [hColon]
  simp only [List.append_assoc, List.cons_append]
  rw [readChars_blank_append (hl.newline level), hName, hMark, readChars_blank_append hBlanks,
    h.read l hl level _ rest rfl]
  rfl

theorem readChars_members (hl : l.Blank) {m : String × Json} {r : List (String × Json)}
    {ps : List (Option String × Outline)} (h : List.Forall₂ PrintsMember (m :: r) ps) (level : Nat)
    (held : List (Option String × Outline)) {place : ObjectPlace}
    (hPlace : place = .nameOrClose ∨ place = .name) (outer : List Frame) (rest : List Char) :
    readChars (.object held place :: outer) (membersChars l level (m :: r) ++ rest) =
      readChars (.object (ps.reverse ++ held) .commaOrClose :: outer) rest := by
  induction r generalizing m ps held place with
  | nil =>
    obtain ⟨⟨found, o⟩, _, ⟨hFound, hv⟩, hNil, rfl⟩ := List.forall₂_cons_left_iff.mp h
    cases hNil
    cases hFound
    rw [membersChars]
    exact readChars_member hl hv level hPlace outer rest
  | cons n r ih =>
    obtain ⟨⟨found, o⟩, ps, ⟨hFound, hv⟩, hr, rfl⟩ := List.forall₂_cons_left_iff.mp h
    cases hFound
    have hComma : readChars (.object ((some m.1, o) :: held) .commaOrClose :: outer)
        (',' :: (membersChars l level (n :: r) ++ rest)) =
        readChars (.object ((some m.1, o) :: held) .name :: outer)
          (membersChars l level (n :: r) ++ rest) := by
      rw [readChars, Token.ofChars_comma]
      exact read_of_go rfl
    rw [membersChars, List.append_assoc, readChars_member hl hv level hPlace, List.cons_append,
      hComma, ih hr ((some m.1, o) :: held) (.inr rfl), List.reverse_cons, List.append_assoc,
      List.singleton_append]

theorem prints_object {ms : List (String × Json)} {ps : List (Option String × Outline)}
    (h : List.Forall₂ PrintsMember ms ps) : Prints (.object ms) (.object ps true) where
  value levels hDepth := by
    have hMembers : Json.depthOfMembers ms ≤ levels - 1 := Nat.le_sub_one_of_lt hDepth
    rw [value?, if_pos ⟨rfl, Nat.zero_lt_of_lt hDepth⟩, memberValues?_of_prints h hMembers,
      Option.map_some]
  read l hl level frames rest hWants := by
    have hOpen : ∀ cs, readChars frames ('\x7b' :: cs) =
        readChars (.object [] .nameOrClose :: frames) cs := by
      intro cs
      rw [readChars, Token.ofChars_openObject]
      exact read_of_go (by rw [advance, if_pos hWants])
    cases h with
    | nil =>
      rw [chars, List.cons_append, hOpen]
      exact readChars_of_finish (Token.ofChars_closeObject rest) rfl
    | @cons m p r ps hm hr =>
      have hClose : readChars (.object (ps.reverse ++ [p]) .commaOrClose :: frames) ('\x7d' :: rest) =
          deliver (.object (p :: ps) true) frames rest := by
        have hHeld : (p :: ps) = (ps.reverse ++ [p]).reverse := by simp
        rw [hHeld]
        exact readChars_of_finish (Token.ofChars_closeObject rest) rfl
      have hMembers := readChars_members hl (.cons hm hr) (level + 1) [] (.inl rfl) frames
        (l.newline level ++ '\x7d' :: rest)
      rw [List.append_nil, List.reverse_cons, readChars_blank_append (hl.newline level)] at hMembers
      rw [chars, List.append_assoc, List.append_assoc, List.cons_append, hOpen]
      exact hMembers.trans hClose

/-! ## Levels -/

mutual

theorem depth_le_of_value? {levels : Nat} {o : Outline} {v : Json} (h : o.value? levels = some v) :
    v.depth ≤ levels := by
  cases o with
  | array items closed =>
    rw [value?] at h
    split at h
    · rename_i hOpen
      obtain ⟨vs, hItems, rfl⟩ := Option.map_eq_some_iff.mp h
      have hLe := depthOfItems_le_of_values? hItems
      rw [Json.depth]
      omega
    · cases h
  | object members closed =>
    rw [value?] at h
    split at h
    · rename_i hOpen
      obtain ⟨ms, hMembers, rfl⟩ := Option.map_eq_some_iff.mp h
      have hLe := depthOfMembers_le_of_memberValues? hMembers
      rw [Json.depth]
      omega
    · cases h
  | null => cases h; exact Nat.zero_le _
  | bool b => cases h; exact Nat.zero_le _
  | number n =>
    obtain ⟨m, -, rfl⟩ := Option.map_eq_some_iff.mp h
    exact Nat.zero_le _
  | string s =>
    obtain ⟨t, -, rfl⟩ := Option.map_eq_some_iff.mp h
    exact Nat.zero_le _
  | broken => cases h

theorem depthOfItems_le_of_values? {levels : Nat} {os : List Outline} {vs : List Json}
    (h : values? levels os = some vs) : Json.depthOfItems vs ≤ levels := by
  cases os with
  | nil =>
    cases h
    exact Nat.zero_le _
  | cons o r =>
    rw [values?] at h
    split at h
    · rename_i hFirst hRest
      cases h
      exact Nat.max_le.mpr ⟨depth_le_of_value? hFirst, depthOfItems_le_of_values? hRest⟩
    · cases h

theorem depthOfMembers_le_of_memberValues? {levels : Nat} {ps : List (Option String × Outline)}
    {ms : List (String × Json)} (h : memberValues? levels ps = some ms) :
    Json.depthOfMembers ms ≤ levels := by
  cases ps with
  | nil =>
    cases h
    exact Nat.zero_le _
  | cons p r =>
    obtain ⟨name, o⟩ := p
    simp only [memberValues?] at h
    split at h
    · rename_i hFirst hRest
      cases h
      exact Nat.max_le.mpr ⟨depth_le_of_value? hFirst, depthOfMembers_le_of_memberValues? hRest⟩
    · cases h

end

/-! ## Tidy values -/

theorem exists_forall₂ {α β : Type} {R : α → β → Prop} {as : List α} (h : ∀ a ∈ as, ∃ b, R a b) :
    ∃ bs, List.Forall₂ R as bs := by
  induction as with
  | nil => exact ⟨[], .nil⟩
  | cons a r ih =>
    rw [List.forall_mem_cons] at h
    obtain ⟨b, hb⟩ := h.1
    obtain ⟨bs, hbs⟩ := ih h.2
    exact ⟨b :: bs, .cons hb hbs⟩

theorem exists_prints {v : Json} (h : v.Tidy) : ∃ o, Prints v o := by
  induction h with
  | bool b => exact ⟨_, prints_bool b⟩
  | string s => exact ⟨_, prints_string s⟩
  | array _ ih =>
    obtain ⟨os, hItems⟩ := exists_forall₂ ih
    exact ⟨_, prints_array hItems⟩
  | object _ _ ih =>
    have hMember : ∀ m ∈ _, ∃ p, PrintsMember m p := fun m hm => by
      obtain ⟨o, ho⟩ := ih m hm
      exact ⟨(some m.1, o), rfl, ho⟩
    obtain ⟨ps, hMembers⟩ := exists_forall₂ hMember
    exact ⟨_, prints_object hMembers⟩

end Outline

namespace Json

/-- A text is read as what was printed, if that does not nest too deep. -/
theorem rawOfText?_print {l : Layout} (hl : l.Blank) {v : Json} (h : v.Tidy)
    (hDepth : v.depth ≤ maxLevels) :
    rawOfText? (print l v) = some v := by
  obtain ⟨o, ho⟩ := Outline.exists_prints h
  have hRead : Outline.ofText (print l v) = (o, true) := by
    have hChars := ho.read l hl 0 [] [] rfl
    rw [List.append_nil] at hChars
    rw [Outline.ofText, print, String.toList_ofList]
    refine hChars.trans ?_
    rw [Outline.deliver, Token.ofChars_of_dropWhile_nil rfl]
    rfl
  rw [rawOfText?, hRead]
  simp only [if_true, ho.value maxLevels hDepth]

theorem depth_le_of_ofText? {s : String} {v : Json} (h : ofText? s = some v) :
    v.depth ≤ maxLevels := by
  simp only [ofText?] at h
  split at h
  · obtain ⟨w, hw, rfl⟩ := Option.map_eq_some_iff.mp h
    exact (depth_canonical_le w).trans (Outline.depth_le_of_value? hw)
  · cases h

end Json

end AssetShell
