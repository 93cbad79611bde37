import AssetShell.Proofs.Text.Span
import AssetShell.Proofs.Toml.PrintedString
import AssetShell.Toml.Statement

/-!
# Reading printed lines

Booleans, strings and arrays of strings are read as they were printed, and so are the lines with
headers and entries: each line gives one statement, and the reading goes on with the next line.
-/

namespace AssetShell

namespace Toml

variable {levels : Nat} {name : String} {v : List Char} {t : Toml} {rest : List Char}

/-! ## Strings and booleans -/

theorem exists_mark (cs : List Char) :
    ∃ mark r, stringChars cs = mark :: r ∧ (mark = '"' ∨ mark = '\'') := by
  rw [stringChars]
  cases StringForm.ofChars cs with
  | basic => exact ⟨'"', _, rfl, .inl rfl⟩
  | basicLines => exact ⟨'"', _, rfl, .inl rfl⟩
  | literal => exact ⟨'\'', _, rfl, .inr rfl⟩
  | literalLines => exact ⟨'\'', _, rfl, .inr rfl⟩

theorem scalar?_stringChars (hRest : NoMark rest) (s : String) :
    scalar? (stringChars s.toList ++ rest) = some (.string s, rest) := by
  have hRead := read?_stringChars hRest s.toList
  obtain ⟨mark, r, hChars, hMark⟩ := exists_mark s.toList
  rw [hChars, List.cons_append] at hRead ⊢
  rcases hMark with rfl | rfl
  · rw [scalar?, hRead, Option.map_some]
    simp only [String.ofList_toList]
  · rw [scalar?, hRead, Option.map_some]
    simp only [String.ofList_toList]

theorem value?_stringChars (levels : Nat) (hRest : NoMark rest) (s : String) :
    value? levels (stringChars s.toList ++ rest) = some (.string s, rest) := by
  have hScalar := scalar?_stringChars hRest s
  cases levels with
  | zero => exact hScalar
  | succ levels =>
    obtain ⟨mark, r, hChars, hMark⟩ := exists_mark s.toList
    rw [hChars, List.cons_append] at hScalar ⊢
    rcases hMark with rfl | rfl
    · exact hScalar
    · exact hScalar

theorem value?_boolChars (levels : Nat) (b : Bool) (rest : List Char) :
    value? (levels + 1) (boolChars b ++ '\n' :: rest) = some (.boolean b, '\n' :: rest) := by
  cases b with
  | true => rfl
  | false => rfl

/-! ## Arrays -/

section Parts

variable {α : Type} {skip : List Char → List Char} {close c : Char} {part? : Scan α} {a : α}
  {parts : List α} {cs r s : List Char}

theorem parts?_of_close (h : skip cs = close :: r) :
    Scan.parts? skip close part? cs = some ([], r) := by
  rw [Scan.parts?]
  simp only [h, if_true]

theorem parts?_of_last (h : skip cs = c :: r) (hc : c ≠ close)
    (hPart : part? (c :: r) = some (a, s)) (hEnd : skip s = close :: rest) :
    Scan.parts? skip close part? cs = some ([a], rest) := by
  rw [Scan.parts?]
  simp only [h, if_neg hc, hPart, hEnd, if_true]

theorem parts?_of_comma (h : skip cs = c :: r) (hc : c ≠ close)
    (hPart : part? (c :: r) = some (a, s)) {behind : List Char} (hComma : skip s = ',' :: behind)
    (hClose : ',' ≠ close) (hLength : behind.length < cs.length)
    (hBehind : Scan.parts? skip close part? behind = some (parts, rest)) :
    Scan.parts? skip close part? cs = some (a :: parts, rest) := by
  rw [Scan.parts?]
  simp only [h, if_neg hc, hPart, hComma, if_neg hClose, if_true, dif_pos hLength, hBehind,
    Option.map_some]

end Parts

theorem skipGap_stringChars (cs rest : List Char) :
    skipGap false (stringChars cs ++ rest) = stringChars cs ++ rest := by
  obtain ⟨mark, r, hChars, hMark⟩ := exists_mark cs
  rw [hChars]
  rcases hMark with rfl | rfl
  · rfl
  · rfl

/-- The lines of an array, from the line end before them to the closing bracket. -/
theorem parts?_itemLines (levels : Nat) (xs : List String) (rest : List Char) :
    Scan.parts? (skipGap false) ']' (value? levels) ('\n' :: (xs.flatMap itemLine ++ ']' :: rest)) =
      some (xs.map .string, rest) := by
  induction xs with
  | nil => exact parts?_of_close rfl
  | cons x xs ih =>
    have hLine : (x :: xs).flatMap itemLine ++ ']' :: rest = "    ".toList ++
        (stringChars x.toList ++ ',' :: '\n' :: (xs.flatMap itemLine ++ ']' :: rest)) := by
      simp [itemLine]
    have hSkip (r : List Char) : skipGap false ('\n' :: ("    ".toList ++ r)) = skipGap false r :=
      rfl
    obtain ⟨mark, r, hChars, hMark⟩ := exists_mark x.toList
    have hClose : mark ≠ ']' := by rcases hMark with rfl | rfl <;> decide
    have hNoMark : NoMark (',' :: '\n' :: (xs.flatMap itemLine ++ ']' :: rest)) :=
      noMark_cons (by decide) (by decide) _
    have hValue := value?_stringChars levels hNoMark x
    have hStart := hSkip
      (stringChars x.toList ++ ',' :: '\n' :: (xs.flatMap itemLine ++ ']' :: rest))
    rw [skipGap_stringChars] at hStart
    rw [hLine]
    rw [hChars, List.cons_append] at hValue hStart ⊢
    refine parts?_of_comma hStart hClose hValue rfl (by decide) ?_ ih
    simp only [List.length_cons, List.length_append]
    omega

theorem value?_arrayChars (levels : Nat) (xs : List String) (rest : List Char) :
    value? (levels + 1) (arrayChars xs ++ rest) = some (.array (xs.map .string), rest) := by
  have hArray {cs : List Char} {parts : List Toml}
      (h : Scan.parts? (skipGap false) ']' (value? levels) cs = some (parts, rest)) :
      value? (levels + 1) ('[' :: cs) = some (.array parts, rest) := by
    rw [value?, h, Option.map_some]
  match xs with
  | [] => exact hArray (parts?_of_close rfl)
  | [x] =>
    have hChars : arrayChars [x] ++ rest = '[' :: (stringChars x.toList ++ ']' :: rest) := by
      simp [arrayChars]
    rw [hChars]
    apply hArray
    have hNoMark : NoMark (']' :: rest) := noMark_cons (by decide) (by decide) rest
    have hValue := value?_stringChars levels hNoMark x
    have hStart := skipGap_stringChars x.toList (']' :: rest)
    obtain ⟨mark, r, hMarked, hMark⟩ := exists_mark x.toList
    have hClose : mark ≠ ']' := by rcases hMark with rfl | rfl <;> decide
    rw [hMarked, List.cons_append] at hValue hStart ⊢
    exact parts?_of_last hStart hClose hValue rfl
  | x :: y :: r =>
    have hChars : arrayChars (x :: y :: r) ++ rest =
        '[' :: '\n' :: ((x :: y :: r).flatMap itemLine ++ ']' :: rest) := by
      simp [arrayChars]
    rw [hChars]
    exact hArray (parts?_itemLines levels (x :: y :: r) rest)

/-! ## Lines -/

/-- A name that is written as it is. -/
def IsBare (name : String) : Prop := name.toList ≠ [] ∧ name.toList.all isBareChar = true

theorem IsBare.exists_first (h : IsBare name) :
    ∃ c r, name.toList = c :: r ∧ ∀ d, isBareChar d = false → c ≠ d := by
  obtain ⟨hNonempty, hBare⟩ := h
  cases hName : name.toList with
  | nil => exact absurd hName hNonempty
  | cons c r =>
    refine ⟨c, r, rfl, ?_⟩
    rintro d hd rfl
    have hFirst : c ∈ name.toList := by
      rw [hName]
      exact List.mem_cons_self
    exact Bool.false_ne_true (hd.symm.trans (List.all_eq_true.mp hBare c hFirst))

theorem skipBlanks_of_not_isBlank {c : Char} (h : Text.isBlank c = false) (r : List Char) :
    skipBlanks (c :: r) = c :: r := by
  rw [skipBlanks, List.dropWhile_cons, h]
  rfl

theorem isBlank_eq_false {c : Char} (hSpace : c ≠ ' ') (hTab : c ≠ '\t') :
    Text.isBlank c = false := by
  rw [Text.isBlank, decide_eq_false hSpace, decide_eq_false hTab]
  rfl

theorem name?_bare (h : IsBare name) (hRest : ∀ c ∈ rest.head?, isBareChar c = false) :
    name? (name.toList ++ rest) = some (name, rest) := by
  have hSpan : (name.toList ++ rest).span isBareChar = (name.toList, rest) :=
    span_append (List.all_eq_true.mp h.2) hRest
  obtain ⟨c, r, hName, hFirst⟩ := h.exists_first
  rw [hName, List.cons_append] at hSpan ⊢
  rw [name?]
  · simp only [hSpan, ← hName, List.isEmpty_eq_false_iff.mpr h.1, Bool.false_eq_true, if_false,
      String.ofList_toList]
  · intro s hs
    exact hFirst '"' (by decide) (List.cons.inj hs).1
  · intro s hs
    exact hFirst '\'' (by decide) (List.cons.inj hs).1

/-- One bare name and no point behind it are a key. -/
theorem key?_bare (h : IsBare name) (hRest : ∀ c ∈ rest.head?, isBareChar c = false)
    (hPoint : '.' ∉ (skipBlanks rest).head?) :
    key? (name.toList ++ rest) = some ([name], skipBlanks rest) := by
  have hStart : skipBlanks (name.toList ++ rest) = name.toList ++ rest := by
    obtain ⟨c, r, hName, hFirst⟩ := h.exists_first
    rw [hName, List.cons_append]
    apply skipBlanks_of_not_isBlank
    exact isBlank_eq_false (hFirst ' ' (by decide)) (hFirst '\t' (by decide))
  have hNames : names? (name.toList ++ rest) = some ([name], skipBlanks rest) := by
    rw [names?, hStart, name?_bare h hRest]
    split
    · rename_i hFound
      cases hFound
    · rename_i hFound
      cases hFound
      split
      · rename_i hFound
        rw [hFound] at hPoint
        exact absurd rfl hPoint
      · rfl
  rw [key?, hNames]
  rfl

namespace Statement

/-- What is written on a line by itself is read as a statement, and the line end with it. -/
theorem all?_of_read? {c : Char} {r behind : List Char} {statement : Statement}
    (hStart : isNone (c :: r) = false) (hBlank : Text.isBlank c = false)
    (hRead : read? (c :: r) = some (statement, '\n' :: behind)) (hLength : behind.length ≤ r.length) :
    all? (c :: r) = (all? behind).map (statement :: ·) := by
  have hEnd : lineEnd? (skipBlanks ('\n' :: behind)) = some behind := rfl
  rw [all?]
  simp only [skipBlanks_of_not_isBlank hBlank, hStart, hRead, hEnd, dif_pos hLength]
  rfl

theorem all?_newline (rest : List Char) : all? ('\n' :: rest) = all? rest := by
  have hStart : isNone (skipBlanks ('\n' :: rest)) = true := rfl
  have hEnd : lineEnd? (skipBlanks ('\n' :: rest)) = some rest := rfl
  rw [all?]
  simp only [hStart, if_true, hEnd, dif_pos (Nat.le_refl rest.length)]

theorem all?_headerLine (h : IsBare name) (rest : List Char) :
    all? (headerLine name ++ rest) = (all? rest).map (.table [name] :: ·) := by
  have hChars : headerLine name ++ rest = '[' :: (name.toList ++ ']' :: '\n' :: rest) := by
    simp [headerLine]
  have hKey : key? (name.toList ++ ']' :: '\n' :: rest) = some ([name], ']' :: '\n' :: rest) :=
    key?_bare h (by simp [isBareChar]) (by simp [skipBlanks, Text.isBlank])
  obtain ⟨c, s, hName, hFirst⟩ := h.exists_first
  rw [hChars]
  refine all?_of_read? rfl (by decide) ?_ ?_
  · rw [read?]
    · rw [hKey]
      rfl
    · intro r hr
      rw [hName] at hr
      exact hFirst '[' (by decide) (List.cons.inj hr).1
  · simp only [List.length_append, List.length_cons]
    omega

/-- A value that is read as it was printed, at the end of a line. -/
structure Printed (v : List Char) (t : Toml) : Prop where
  start : ∃ c r, v = c :: r ∧ Text.isBlank c = false
  read (rest : List Char) : value? maxLevels (v ++ '\n' :: rest) = some (t, '\n' :: rest)

theorem all?_entryLine (h : IsBare name) (hv : Printed v t) (rest : List Char) :
    all? (entryLine name v ++ rest) = (all? rest).map (.assign [name] t :: ·) := by
  have hChars : entryLine name v ++ rest =
      name.toList ++ ' ' :: '=' :: ' ' :: (v ++ '\n' :: rest) := by
    simp [entryLine]
  have hKey : key? (name.toList ++ ' ' :: '=' :: ' ' :: (v ++ '\n' :: rest)) =
      some ([name], '=' :: ' ' :: (v ++ '\n' :: rest)) :=
    key?_bare h (by simp [isBareChar]) (by simp [skipBlanks, Text.isBlank])
  have hSkip : skipBlanks (' ' :: (v ++ '\n' :: rest)) = v ++ '\n' :: rest := by
    obtain ⟨c, r, rfl, hBlank⟩ := hv.start
    exact skipBlanks_of_not_isBlank hBlank (r ++ '\n' :: rest)
  have hPair : pair? (value? maxLevels)
      (name.toList ++ ' ' :: '=' :: ' ' :: (v ++ '\n' :: rest)) =
      some (([name], t), '\n' :: rest) := by
    rw [pair?, hKey]
    simp only [hSkip, hv.read, Option.map_some]
  obtain ⟨c, r, hName, hFirst⟩ := h.exists_first
  rw [hChars]
  rw [hName, List.cons_append] at hPair ⊢
  refine all?_of_read? ?_ ?_ ?_ ?_
  · unfold isNone
    split
    · rename_i hNil
      cases hNil
    · rename_i hNewline
      exact absurd (List.cons.inj hNewline).1 (hFirst '\n' (by decide))
    · rename_i hComment
      exact absurd (List.cons.inj hComment).1 (hFirst '#' (by decide))
    · rfl
  · exact isBlank_eq_false (hFirst ' ' (by decide)) (hFirst '\t' (by decide))
  · rw [read?]
    · rw [hPair]
      rfl
    · intro s hs
      exact hFirst '[' (by decide) (List.cons.inj hs).1
    · intro s hs
      exact hFirst '[' (by decide) (List.cons.inj hs).1
  · simp only [List.length_append, List.length_cons]
    omega

theorem printed_string (s : String) : Printed (stringChars s.toList) (.string s) where
  start := by
    obtain ⟨mark, r, hChars, hMark⟩ := exists_mark s.toList
    refine ⟨mark, r, hChars, ?_⟩
    rcases hMark with rfl | rfl <;> decide
  read rest := value?_stringChars maxLevels (noMark_cons (by decide) (by decide) rest) s

theorem printed_bool (b : Bool) : Printed (boolChars b) (.boolean b) where
  start := by
    cases b with
    | true => exact ⟨'t', _, rfl, by decide⟩
    | false => exact ⟨'f', _, rfl, by decide⟩
  read rest := value?_boolChars 78 b rest

theorem printed_array (xs : List String) : Printed (arrayChars xs) (.array (xs.map .string)) where
  start := by
    refine ⟨'[', (arrayChars xs).tail, ?_, by decide⟩
    match xs with
    | [] => rfl
    | [x] => rfl
    | x :: y :: r => rfl
  read rest := value?_arrayChars 78 xs ('\n' :: rest)

theorem all?_nil : all? [] = some [] := by rw [all?]

end Statement

/-! ## Texts -/

theorem unifyLineEnds_of_not_mem {cs : List Char} (h : '\r' ∉ cs) : unifyLineEnds cs = cs := by
  induction cs with
  | nil => rfl
  | cons c r ih =>
    obtain ⟨hFirst, hRest⟩ := List.ne_and_not_mem_of_not_mem_cons h
    rw [unifyLineEnds, ih hRest]
    exact fun _ hc _ => hFirst hc.symm

/-- A text without a mark in front and without carriage returns holds what its statements make. -/
theorem ofText?_of_all? {text : String} {statements : List Statement} {entries : Named Toml}
    (hMark : '\ufeff' ∉ text.toList.head?) (hReturn : '\r' ∉ text.toList)
    (hAll : Statement.all? text.toList = some statements)
    (hGrow : (statements.foldlM Growth.step Growth.start).map (fun g => Node.entriesOf g.nodes) =
      some entries) : ofText? text = some entries := by
  have hDrop : dropMark text.toList = text.toList := by
    unfold dropMark
    split
    · rename_i hChars
      rw [hChars] at hMark
      exact absurd rfl hMark
    · rfl
  rw [ofText?, hDrop, unifyLineEnds_of_not_mem hReturn, hAll]
  rw [Option.map_eq_bind] at hGrow
  exact hGrow

end Toml

end AssetShell
