import AssetShell.Literal.Check
import AssetShell.Proofs.Number.Digits
import AssetShell.Proofs.Text.Span

/-!
# Literals of resource identifiers

What stands before the first `?` or `#` decides whether an identifier names something: it is not
empty, and it is not an authority alone. Only a fragment over several lines has a form of its own to
break.
-/

namespace AssetShell

namespace UriParts

/-! ## The forms of the parts -/

def IsLetter (c : Char) : Prop := 'A' ≤ c ∧ c ≤ 'Z' ∨ 'a' ≤ c ∧ c ≤ 'z'

def IsSchemeMark (c : Char) : Prop :=
  IsLetter c ∨ '0' ≤ c ∧ c ≤ '9' ∨ c = '+' ∨ c = '.' ∨ c = '-'

/-- The text starts with `[A-Za-z][A-Za-z0-9+.-]*:`. -/
inductive HasScheme : List Char → Prop
  | mk {c : Char} {s r : List Char} (hFirst : IsLetter c) (hRest : ∀ d ∈ s, IsSchemeMark d) :
    HasScheme (c :: s ++ ':' :: r)

/-- The path is what follows an authority, and everything if there is no authority. -/
inductive PathOf : List Char → List Char → Prop
  | bare {h : List Char} (hStart : ¬ ['/', '/'] <+: h) : PathOf h h
  | behind {a p : List Char} (hAuthority : '/' ∉ a) (hPath : ∀ c ∈ p.head?, c = '/') :
    PathOf ('/' :: '/' :: a ++ p) p

/-- The part before the first `?` or `#`. -/
def hierarchy (cs : List Char) : List Char := cs.takeWhile fun c => c ≠ '?' && c ≠ '#'

/-- What stands behind the first `#`, if there is one, has no line feed. -/
def OneLineFragment (cs : List Char) : Prop :=
  ∀ front behind, cs = front ++ '#' :: behind → '#' ∉ front → '\n' ∉ behind

variable {cs h p : List Char} {c : Char}

theorem isAlpha_iff : c.isAlpha = true ↔ IsLetter c := by
  have hUpper : c.isUpper = true ↔ 'A' ≤ c ∧ c ≤ 'Z' := decide_eq_true_iff
  have hLower : c.isLower = true ↔ 'a' ≤ c ∧ c ≤ 'z' := by
    change (decide ('a' ≤ c) && decide (c ≤ 'z')) = true ↔ _
    simp
  rw [IsLetter, ← hUpper, ← hLower, ← Bool.or_eq_true]
  rfl

theorem isSchemeChar_iff : isSchemeChar c = true ↔ IsSchemeMark c := by
  simp only [isSchemeChar, IsSchemeMark, Char.isAlphanum, Bool.or_eq_true, decide_eq_true_eq,
    isAlpha_iff, isDigit_iff, or_assoc]

/-! ## Cutting -/

theorem cutAt_fst (c : Char) (cs : List Char) : (cutAt c cs).1 = cs.takeWhile (· ≠ c) := by
  unfold cutAt
  rw [List.span_eq_takeWhile_dropWhile]
  split <;> simp_all

theorem cutAt_snd_eq_some_iff {behind : List Char} :
    (cutAt c cs).2 = some behind ↔ ∃ front, c ∉ front ∧ cs = front ++ c :: behind := by
  constructor
  · intro h
    unfold cutAt at h
    split at h
    · cases h
    · rename_i front d tail hSpan
      cases h
      obtain ⟨rfl, hFront, hStop⟩ := span_eq_iff.mp hSpan
      obtain rfl : d = c := by simpa using hStop d rfl
      exact ⟨front, fun hMem => by simpa using hFront d hMem, rfl⟩
  · rintro ⟨front, hFront, rfl⟩
    have hSpan : (front ++ c :: behind).span (· ≠ c) = (front, c :: behind) :=
      span_append (fun d hd => by simpa using ne_of_mem_of_not_mem hd hFront) (by simp)
    rw [cutAt, hSpan]

theorem oneLineFragment_iff : OneLineFragment cs ↔ ∀ behind, (cutAt '#' cs).2 = some behind →
    '\n' ∉ behind := by
  simp only [OneLineFragment, cutAt_snd_eq_some_iff]
  constructor
  · rintro h behind ⟨front, hFront, hText⟩
    exact h front behind hText hFront
  · intro h front behind hText hFront
    exact h behind ⟨front, hFront, hText⟩

theorem hierarchy_eq (cs : List Char) : (cutAt '?' (cutAt '#' cs).1).1 = hierarchy cs := by
  rw [cutAt_fst, cutAt_fst, List.takeWhile_takeWhile, hierarchy]
  simp

/-! ## Schemes -/

theorem isSome_schemeThen_iff : (schemeThen cs).1.isSome = true ↔ HasScheme cs := by
  constructor
  · intro h
    unfold schemeThen at h
    split at h
    · rename_i c s r hSpan
      split at h
      · rename_i hAlpha
        obtain ⟨rfl, hFront, -⟩ := span_eq_iff.mp hSpan
        obtain ⟨-, hRest⟩ := List.forall_mem_cons.mp hFront
        exact .mk (isAlpha_iff.mp hAlpha) fun d hd => isSchemeChar_iff.mp (hRest d hd)
      · cases h
    · cases h
  · rintro ⟨hFirst, hRest⟩
    rename_i c s r
    have hFront : ∀ d ∈ c :: s, isSchemeChar d = true := by
      refine List.forall_mem_cons.mpr ⟨isSchemeChar_iff.mpr (.inl hFirst), fun d hd => ?_⟩
      exact isSchemeChar_iff.mpr (hRest d hd)
    have hSpan : (c :: s ++ ':' :: r).span isSchemeChar = (c :: s, ':' :: r) :=
      span_append hFront (by simp; decide)
    rw [schemeThen, hSpan]
    simp [isAlpha_iff.mpr hFirst]

theorem schemeThen_of_not_hasScheme (h : ¬ HasScheme cs) : schemeThen cs = (none, cs) := by
  have hCases : schemeThen cs = (none, cs) ∨ (schemeThen cs).1.isSome = true := by
    unfold schemeThen
    split
    · split
      · exact .inr rfl
      · exact .inl rfl
    · exact .inl rfl
  exact hCases.resolve_right (mt isSome_schemeThen_iff.mp h)

theorem IsSchemeMark.ne_mark (hMark : IsSchemeMark c) : c ≠ '?' ∧ c ≠ '#' := by
  have hChar := isSchemeChar_iff.mpr hMark
  constructor <;> rintro rfl <;> exact absurd hChar (by decide)

/-- A scheme ends before the first mark that ends the path. -/
theorem hasScheme_hierarchy_iff : HasScheme (hierarchy cs) ↔ HasScheme cs := by
  constructor
  · intro h
    have hText : cs = hierarchy cs ++ cs.dropWhile fun c => c ≠ '?' && c ≠ '#' :=
      List.takeWhile_append_dropWhile.symm
    generalize hierarchy cs = front at h hText
    obtain ⟨hFirst, hRest⟩ := h
    rw [hText, List.append_assoc]
    exact .mk hFirst hRest
  · rintro ⟨hFirst, hRest⟩
    rename_i c s r
    have hFront : ∀ d ∈ c :: s, (d ≠ '?' && d ≠ '#') = true := by
      refine List.forall_mem_cons.mpr ⟨?_, fun d hd => ?_⟩
      · simpa using IsSchemeMark.ne_mark (.inl hFirst)
      · simpa using (hRest d hd).ne_mark
    rw [hierarchy, List.takeWhile_append_of_pos hFront, List.takeWhile_cons_of_pos (by decide)]
    exact .mk hFirst hRest

/-! ## Paths -/

theorem pathOf_iff : PathOf h p ↔ (authorityThen h).2 = p := by
  constructor
  · rintro (hStart | ⟨hAuthority, hPath⟩)
    · unfold authorityThen
      split
      · exact absurd (List.prefix_append ['/', '/'] _) hStart
      · rfl
    · rename_i a
      have hSpan : (a ++ p).span (· ≠ '/') = (a, p) :=
        span_append (fun d hd => by simpa using ne_of_mem_of_not_mem hd hAuthority)
          fun c hc => by simpa using hPath c hc
      simp only [List.cons_append, authorityThen, hSpan]
  · rintro rfl
    unfold authorityThen
    split
    · rename_i r
      generalize hSpan : r.span (· ≠ '/') = parts
      obtain ⟨a, p⟩ := parts
      obtain ⟨rfl, hFront, hStop⟩ := span_eq_iff.mp hSpan
      refine .behind (fun hMem => ?_) fun c hc => by simpa using hStop c hc
      simpa using hFront '/' hMem
    · rename_i hOther
      refine .bare ?_
      rintro ⟨r, rfl⟩
      exact hOther r rfl

/-- A text has a scheme or a path unless it is empty or an authority alone. -/
theorem hasScheme_or_pathOf_iff :
    (HasScheme h ∨ ∃ p, PathOf h p ∧ p ≠ []) ↔
      h ≠ [] ∧ ¬ ∃ a, '/' ∉ a ∧ h = '/' :: '/' :: a := by
  constructor
  · rintro (⟨hFirst, -⟩ | ⟨p, hStart | ⟨-, hPath⟩, hNonempty⟩)
    · refine ⟨List.cons_ne_nil _ _, ?_⟩
      rintro ⟨a, -, hText⟩
      obtain rfl := (List.cons.inj hText).1
      exact absurd (isAlpha_iff.mpr hFirst) (by decide)
    · refine ⟨hNonempty, ?_⟩
      rintro ⟨a, -, rfl⟩
      exact hStart (List.prefix_append ['/', '/'] a)
    · refine ⟨List.cons_ne_nil _ _, ?_⟩
      rintro ⟨a, hAuthority, hText⟩
      obtain ⟨c, tail, rfl⟩ := List.exists_cons_of_ne_nil hNonempty
      obtain rfl := hPath c rfl
      obtain rfl := (List.cons.inj (List.cons.inj hText).2).2
      exact hAuthority (List.mem_append_right _ List.mem_cons_self)
  · rintro ⟨hNonempty, hOther⟩
    refine .inr ⟨(authorityThen h).2, pathOf_iff.mpr rfl, fun hEmpty => ?_⟩
    have hPath := pathOf_iff.mpr hEmpty
    generalize hEnd : ([] : List Char) = p at hPath
    cases hPath with
    | bare => exact hNonempty hEnd.symm
    | behind hAuthority =>
      subst hEnd
      exact hOther ⟨_, hAuthority, List.append_nil _⟩

theorem any_namesSomething_iff :
    (ofChars? cs).any namesSomething = true ↔
      OneLineFragment cs ∧ (HasScheme cs ∨ ∃ p, PathOf (hierarchy cs) p ∧ p ≠ []) := by
  have hParts : ofChars? cs = if (cutAt '#' cs).2.any (·.contains '\n') then none else
      some ⟨(schemeThen (hierarchy cs)).1, (authorityThen (schemeThen (hierarchy cs)).2).1,
        (authorityThen (schemeThen (hierarchy cs)).2).2, (cutAt '?' (cutAt '#' cs).1).2,
        (cutAt '#' cs).2⟩ := by
    rw [← hierarchy_eq]
    rfl
  have hFragment : (cutAt '#' cs).2.any (·.contains '\n') = true ↔ ¬ OneLineFragment cs := by
    rw [oneLineFragment_iff, Option.any_eq_true]
    simp
  rw [hParts, ← hasScheme_hierarchy_iff]
  by_cases hLine : OneLineFragment cs
  · rw [if_neg (mt hFragment.mp (not_not_intro hLine)), and_iff_right hLine]
    simp only [Option.any_some, namesSomething, Bool.or_eq_true, isSome_schemeThen_iff]
    by_cases hScheme : HasScheme (hierarchy cs)
    · exact iff_of_true (.inl hScheme) (.inl hScheme)
    · rw [schemeThen_of_not_hasScheme hScheme]
      simp [hScheme, pathOf_iff]
  · rw [if_pos (hFragment.mpr hLine)]
    exact iff_of_false nofun fun hBoth => hLine hBoth.1

end UriParts

namespace Literal

open UriParts

variable {cs : List Char} {raw : String}

theorem uriDefect?_eq_none_iff :
    uriDefect? cs = none ↔
      OneLineFragment cs ∧ (HasScheme cs ∨ ∃ p, PathOf (hierarchy cs) p ∧ p ≠ []) := by
  rw [← any_namesSomething_iff]
  exact accepted_iff

theorem exists_form_of_uriDefect? {defect : LiteralDefect} (h : uriDefect? cs = some defect) :
    ∃ form, defect = .form form := by
  unfold uriDefect? at h
  split at h
  · cases h
  · cases h
    exact ⟨_, rfl⟩

theorem check_uri_iff :
    check .anyURI raw = .ok () ↔ OneLineFragment raw.toList ∧
      (HasScheme raw.toList ∨ ∃ p, PathOf (hierarchy raw.toList) p ∧ p ≠ []) :=
  check_eq_ok_iff.trans uriDefect?_eq_none_iff

/-- An identifier is accepted exactly if its fragment keeps to one line and what stands before the
first `?` or `#` is neither empty nor an authority alone, which is to say that it has a scheme or a
path. Every other text has the wrong form. -/
theorem check_uri_literal_iff (raw : String) :
    (check .anyURI raw = .ok () ↔ OneLineFragment raw.toList ∧ hierarchy raw.toList ≠ [] ∧
        ¬ ∃ a, '/' ∉ a ∧ hierarchy raw.toList = '/' :: '/' :: a) ∧
      ((∃ f, check .anyURI raw = .error f ∧ f.rule = "format-error") ↔
        ¬ check .anyURI raw = .ok ()) ∧
      (OneLineFragment raw.toList →
        (check .anyURI raw = .ok () ↔
          HasScheme raw.toList ∨ ∃ p, PathOf (hierarchy raw.toList) p ∧ p ≠ [])) := by
  refine ⟨?_, exists_format_error_iff_of_form fun _ => exists_form_of_uriDefect?, fun hLine => ?_⟩
  · rw [check_uri_iff, ← hasScheme_hierarchy_iff, hasScheme_or_pathOf_iff]
  · rw [check_uri_iff, and_iff_right hLine]

/-- A path behind an authority, with a query over two lines, and an authority alone. -/
theorem check_uri_literal_iff_at_authority :
    OneLineFragment "//host/a?b\nc#d".toList ∧ check .anyURI "//host/a?b\nc#d" = .ok () ∧
      ¬ check .anyURI "//host?b#d" = .ok () := by
  have hLine : OneLineFragment "//host/a?b\nc#d".toList := by
    rw [oneLineFragment_iff]
    rintro _ ⟨⟩
    decide
  have hPath : PathOf (hierarchy "//host/a?b\nc#d".toList) "/a".toList := pathOf_iff.mpr (by decide)
  have hAlone : hierarchy "//host?b#d".toList = '/' :: '/' :: "host".toList := by decide
  obtain ⟨-, -, hNames⟩ := check_uri_literal_iff "//host/a?b\nc#d"
  obtain ⟨hAccepted, -⟩ := check_uri_literal_iff "//host?b#d"
  refine ⟨hLine, (hNames hLine).mpr (.inr ⟨_, hPath, by decide⟩), fun hCheck => ?_⟩
  exact (hAccepted.mp hCheck).2.2 ⟨"host".toList, by decide, hAlone⟩

end Literal

end AssetShell
