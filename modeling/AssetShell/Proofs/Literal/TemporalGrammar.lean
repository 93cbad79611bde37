import AssetShell.Literal.Temporal
import AssetShell.Proofs.Number.Digits
import AssetShell.Proofs.Text.Span
import Mathlib.Data.List.Basic

/-!
# The grammar of written dates and times

The texts of the forms `YYYY-MM-DD`, `HH:MM[:SS[.fff]][Z|±HH:MM]` and the two joined by a `T`, each
with the numbers written in it. Reading a text gives these numbers exactly if it has the form.
-/

namespace AssetShell

namespace Temporal

def TwoDigits (cs : List Char) (n : Nat) : Prop :=
  cs.length = 2 ∧ isDigits cs = true ∧ n = digitsValue cs

inductive DateText : List Char → DateFields → Prop
  | mk {c y m d : List Char} {century year month day : Nat} (hCentury : TwoDigits c century)
    (hYear : TwoDigits y year) (hMonth : TwoDigits m month) (hDay : TwoDigits d day) :
    DateText (c ++ y ++ '-' :: m ++ '-' :: d) ⟨100 * century + year, month, day⟩

/-- Nanoseconds, written as a fraction of one to nine digits. -/
inductive FractionText : List Char → Nat → Prop
  | absent : FractionText [] 0
  | written {digits : List Char} (hDigits : isDigits digits = true) (hLength : digits.length ≤ 9) :
    FractionText ('.' :: digits) (digitsValue digits * 10 ^ (9 - digits.length))

inductive SecondText : List Char → Option Nat × Nat → Prop
  | absent : SecondText [] (none, 0)
  | written {s f : List Char} {second nanos : Nat} (hSecond : TwoDigits s second)
    (hFraction : FractionText f nanos) : SecondText (':' :: s ++ f) (some second, nanos)

inductive DesignatorText : List Char → OffsetField → Prop
  | utc : DesignatorText ['Z'] .utc
  | ahead {h m : List Char} {hours minutes : Nat} (hHours : TwoDigits h hours)
    (hMinutes : TwoDigits m minutes) :
    DesignatorText ('+' :: h ++ ':' :: m) (.fixed false hours minutes)
  | behind {h m : List Char} {hours minutes : Nat} (hHours : TwoDigits h hours)
    (hMinutes : TwoDigits m minutes) :
    DesignatorText ('-' :: h ++ ':' :: m) (.fixed true hours minutes)

inductive OffsetText : List Char → Option OffsetField → Prop
  | absent : OffsetText [] none
  | written {z : List Char} {f : OffsetField} (hDesignator : DesignatorText z f) :
    OffsetText z (some f)

inductive TimeText : List Char → TimeFields → Prop
  | mk {h m s z : List Char} {hour minute nanos : Nat} {second : Option Nat}
    {offset : Option OffsetField} (hHour : TwoDigits h hour) (hMinute : TwoDigits m minute)
    (hSecond : SecondText s (second, nanos)) (hOffset : OffsetText z offset) :
    TimeText (h ++ ':' :: m ++ s ++ z) ⟨hour, minute, second, nanos, offset⟩

/-! ## Reading -/

variable {cs r : List Char} {n : Nat}

theorem twoDigits?_eq_some_iff :
    twoDigits? cs = some (n, r) ↔ ∃ s, TwoDigits s n ∧ cs = s ++ r := by
  constructor
  · intro h
    match cs with
    | [] => cases h
    | [_] => cases h
    | a :: b :: tail =>
      rw [twoDigits?] at h
      split at h
      · rename_i hDigits
        cases h
        exact ⟨[a, b], ⟨rfl, by simpa [isDigits] using hDigits, rfl⟩, rfl⟩
      · cases h
  · rintro ⟨s, ⟨hLength, hDigits, rfl⟩, rfl⟩
    obtain ⟨a, b, rfl⟩ := List.length_eq_two.mp hLength
    have hBoth : (a.isDigit && b.isDigit) = true := by simpa [isDigits] using hDigits
    simp [twoDigits?, hBoth]

theorem expect?_eq_some_iff {c : Char} : expect? c cs = some r ↔ cs = c :: r := by
  cases cs with
  | nil => simp [expect?]
  | cons d tail =>
    rw [expect?]
    split
    · rename_i hSame
      simp [hSame]
    · rename_i hOther
      simp [hOther]

theorem dateThen?_eq_some_iff {f : DateFields} :
    dateThen? cs = some (f, r) ↔ ∃ s, DateText s f ∧ cs = s ++ r := by
  constructor
  · intro h
    obtain ⟨⟨century, r₁⟩, hCentury, h⟩ := Option.bind_eq_some_iff.mp h
    obtain ⟨⟨year, r₂⟩, hYear, h⟩ := Option.bind_eq_some_iff.mp h
    obtain ⟨r₃, hDash, h⟩ := Option.bind_eq_some_iff.mp h
    obtain ⟨⟨month, r₄⟩, hMonth, h⟩ := Option.bind_eq_some_iff.mp h
    obtain ⟨r₅, hDash', h⟩ := Option.bind_eq_some_iff.mp h
    obtain ⟨⟨day, r₆⟩, hDay, h⟩ := Option.bind_eq_some_iff.mp h
    cases h
    obtain ⟨c, hc, rfl⟩ := twoDigits?_eq_some_iff.mp hCentury
    obtain ⟨y, hy, rfl⟩ := twoDigits?_eq_some_iff.mp hYear
    obtain rfl := expect?_eq_some_iff.mp hDash
    obtain ⟨m, hm, rfl⟩ := twoDigits?_eq_some_iff.mp hMonth
    obtain rfl := expect?_eq_some_iff.mp hDash'
    obtain ⟨d, hd, rfl⟩ := twoDigits?_eq_some_iff.mp hDay
    exact ⟨_, .mk hc hy hm hd, by simp⟩
  · rintro ⟨_, ⟨hc, hy, hm, hd⟩, rfl⟩
    simp only [dateThen?, List.append_assoc, List.cons_append,
      twoDigits?_eq_some_iff.mpr ⟨_, hc, rfl⟩, Option.bind_eq_bind, Option.bind_some,
      twoDigits?_eq_some_iff.mpr ⟨_, hy, rfl⟩, expect?_eq_some_iff.mpr rfl,
      twoDigits?_eq_some_iff.mpr ⟨_, hm, rfl⟩, twoDigits?_eq_some_iff.mpr ⟨_, hd, rfl⟩]
    rfl

theorem isEmpty_guard_eq_some_iff {α : Type} {a b : α} :
    (if r.isEmpty then some a else none) = some b ↔ r = [] ∧ a = b := by
  cases r <;> simp

theorem date?_eq_some_iff {f : DateFields} : date? cs = some f ↔ DateText cs f := by
  constructor
  · intro h
    obtain ⟨⟨g, r⟩, hDate, hEnd⟩ := Option.bind_eq_some_iff.mp h
    obtain ⟨s, hText, rfl⟩ := dateThen?_eq_some_iff.mp hDate
    obtain ⟨rfl, rfl⟩ := isEmpty_guard_eq_some_iff.mp hEnd
    rwa [List.append_nil]
  · intro h
    rw [date?, dateThen?_eq_some_iff.mpr ⟨cs, h, (List.append_nil cs).symm⟩]
    rfl

theorem signedOffset?_eq_some_iff {negative : Bool} {f : OffsetField} :
    signedOffset? negative cs = some f ↔ ∃ h m hours minutes, TwoDigits h hours ∧
      TwoDigits m minutes ∧ cs = h ++ ':' :: m ∧ f = .fixed negative hours minutes := by
  constructor
  · intro h
    obtain ⟨⟨hours, r₁⟩, hHours, h⟩ := Option.bind_eq_some_iff.mp h
    obtain ⟨r₂, hColon, h⟩ := Option.bind_eq_some_iff.mp h
    obtain ⟨⟨minutes, r₃⟩, hMinutes, h⟩ := Option.bind_eq_some_iff.mp h
    obtain ⟨rfl, rfl⟩ := isEmpty_guard_eq_some_iff.mp h
    obtain ⟨t, ht, rfl⟩ := twoDigits?_eq_some_iff.mp hHours
    obtain rfl := expect?_eq_some_iff.mp hColon
    obtain ⟨m, hm, rfl⟩ := twoDigits?_eq_some_iff.mp hMinutes
    exact ⟨t, m, hours, minutes, ht, hm, by rw [List.append_nil], rfl⟩
  · rintro ⟨h, m, hours, minutes, hh, hm, rfl, rfl⟩
    simp only [signedOffset?, twoDigits?_eq_some_iff.mpr ⟨_, hh, rfl⟩, Option.bind_eq_bind,
      Option.bind_some, expect?_eq_some_iff.mpr rfl,
      twoDigits?_eq_some_iff.mpr ⟨_, hm, (List.append_nil m).symm⟩]
    rfl

theorem offset?_eq_some_iff {o : Option OffsetField} : offset? cs = some o ↔ OffsetText cs o := by
  constructor
  · intro h
    unfold offset? at h
    split at h
    · cases h
      exact .absent
    · cases h
      exact .written .utc
    · obtain ⟨f, hf, rfl⟩ := Option.map_eq_some_iff.mp h
      obtain ⟨_, _, _, _, hh, hm, rfl, rfl⟩ := signedOffset?_eq_some_iff.mp hf
      exact .written (.ahead hh hm)
    · obtain ⟨f, hf, rfl⟩ := Option.map_eq_some_iff.mp h
      obtain ⟨_, _, _, _, hh, hm, rfl, rfl⟩ := signedOffset?_eq_some_iff.mp hf
      exact .written (.behind hh hm)
    · cases h
  · rintro (_ | (_ | ⟨hh, hm⟩ | ⟨hh, hm⟩))
    · rfl
    · rfl
    · exact Option.map_eq_some_iff.mpr
        ⟨_, signedOffset?_eq_some_iff.mpr ⟨_, _, _, _, hh, hm, rfl, rfl⟩, rfl⟩
    · exact Option.map_eq_some_iff.mpr
        ⟨_, signedOffset?_eq_some_iff.mpr ⟨_, _, _, _, hh, hm, rfl, rfl⟩, rfl⟩

/-- What comes next continues neither a number nor a second. -/
def Ends (cs : List Char) : Prop := ∀ c ∈ cs.head?, c.isDigit = false ∧ c ≠ '.' ∧ c ≠ ':'

theorem OffsetText.ends {o : Option OffsetField} (h : OffsetText cs o) : Ends cs := by
  rcases h with _ | (_ | ⟨_, _⟩ | ⟨_, _⟩) <;> simp [Ends]

theorem nanos?_eq_some_iff {digits : List Char} (hDigits : ∀ c ∈ digits, c.isDigit = true) :
    nanos? digits = some n ↔ isDigits digits = true ∧ digits.length ≤ 9 ∧
      digitsValue digits * 10 ^ (9 - digits.length) = n := by
  have hNonempty : 1 ≤ digits.length ↔ isDigits digits = true := by
    rw [isDigits_iff, and_iff_left hDigits]
    exact List.length_pos_iff
  unfold nanos?
  split
  · rename_i hLength
    simp [← hNonempty, hLength]
  · rename_i hLength
    simp only [reduceCtorEq, false_iff, ← hNonempty]
    rintro ⟨hLow, hHigh, -⟩
    exact hLength ⟨hLow, hHigh⟩

theorem fractionThen?_sound (h : fractionThen? cs = some (n, r)) :
    ∃ s, FractionText s n ∧ cs = s ++ r := by
  unfold fractionThen? at h
  split at h
  · rename_i tail
    rw [List.span_eq_takeWhile_dropWhile] at h
    obtain ⟨nanos, hNanos, hResult⟩ := Option.map_eq_some_iff.mp h
    cases hResult
    have hDigits : ∀ c ∈ tail.takeWhile Char.isDigit, c.isDigit = true :=
      fun c hc => List.mem_takeWhile_imp hc
    obtain ⟨hAll, hLength, rfl⟩ := (nanos?_eq_some_iff hDigits).mp hNanos
    exact ⟨_, .written hAll hLength, by simp⟩
  · cases h
    exact ⟨[], .absent, rfl⟩

theorem fractionThen?_append {s : List Char} (h : FractionText s n) (hEnds : Ends r) :
    fractionThen? (s ++ r) = some (n, r) := by
  cases h with
  | absent =>
    rw [List.nil_append]
    unfold fractionThen?
    split
    · exact absurd rfl (hEnds '.' rfl).2.1
    · rfl
  | written hDigits hLength =>
    have hAll := (isDigits_iff.mp hDigits).2
    rw [List.cons_append, fractionThen?, span_append hAll fun c hc => (hEnds c hc).1]
    exact Option.map_eq_some_iff.mpr
      ⟨_, (nanos?_eq_some_iff hAll).mpr ⟨hDigits, hLength, rfl⟩, rfl⟩

theorem secondThen?_sound {second : Option Nat × Nat} (h : secondThen? cs = some (second, r)) :
    ∃ s, SecondText s second ∧ cs = s ++ r := by
  unfold secondThen? at h
  split at h
  · obtain ⟨⟨n, r₁⟩, hSecond, h⟩ := Option.bind_eq_some_iff.mp h
    obtain ⟨⟨nanos, r₂⟩, hFraction, h⟩ := Option.bind_eq_some_iff.mp h
    cases h
    obtain ⟨s, hs, rfl⟩ := twoDigits?_eq_some_iff.mp hSecond
    obtain ⟨f, hf, rfl⟩ := fractionThen?_sound hFraction
    exact ⟨_, .written hs hf, by simp⟩
  · cases h
    exact ⟨[], .absent, rfl⟩

theorem secondThen?_append {s : List Char} {second : Option Nat × Nat} (h : SecondText s second)
    (hEnds : Ends r) : secondThen? (s ++ r) = some (second, r) := by
  cases h with
  | absent =>
    rw [List.nil_append]
    unfold secondThen?
    split
    · exact absurd rfl (hEnds ':' rfl).2.2
    · rfl
  | written hs hf =>
    simp only [List.cons_append, List.append_assoc, secondThen?,
      twoDigits?_eq_some_iff.mpr ⟨_, hs, rfl⟩, fractionThen?_append hf hEnds, Option.bind_eq_bind,
      Option.bind_some]
    rfl

theorem time?_eq_some_iff {f : TimeFields} : time? cs = some f ↔ TimeText cs f := by
  constructor
  · intro h
    obtain ⟨⟨hour, r₁⟩, hHour, h⟩ := Option.bind_eq_some_iff.mp h
    obtain ⟨r₂, hColon, h⟩ := Option.bind_eq_some_iff.mp h
    obtain ⟨⟨minute, r₃⟩, hMinute, h⟩ := Option.bind_eq_some_iff.mp h
    obtain ⟨⟨⟨second, nanos⟩, r₄⟩, hSecond, h⟩ := Option.bind_eq_some_iff.mp h
    obtain ⟨offset, hOffset, h⟩ := Option.bind_eq_some_iff.mp h
    cases h
    obtain ⟨t, ht, rfl⟩ := twoDigits?_eq_some_iff.mp hHour
    obtain rfl := expect?_eq_some_iff.mp hColon
    obtain ⟨m, hm, rfl⟩ := twoDigits?_eq_some_iff.mp hMinute
    obtain ⟨s, hs, rfl⟩ := secondThen?_sound hSecond
    have hText := TimeText.mk ht hm hs (offset?_eq_some_iff.mp hOffset)
    simpa using hText
  · rintro ⟨ht, hm, hs, hz⟩
    simp only [time?, List.append_assoc, List.cons_append, twoDigits?_eq_some_iff.mpr ⟨_, ht, rfl⟩,
      expect?_eq_some_iff.mpr rfl, twoDigits?_eq_some_iff.mpr ⟨_, hm, rfl⟩,
      secondThen?_append hs hz.ends, offset?_eq_some_iff.mpr hz, Option.bind_eq_bind,
      Option.bind_some]
    rfl

theorem dateTime?_eq_some_iff {d : DateFields} {t : TimeFields} :
    dateTime? cs = some (d, t) ↔
      ∃ x y, cs = x ++ 'T' :: y ∧ date? x = some d ∧ time? y = some t := by
  constructor
  · intro h
    obtain ⟨⟨d, r₁⟩, hDate, h⟩ := Option.bind_eq_some_iff.mp h
    obtain ⟨r₂, hMark, h⟩ := Option.bind_eq_some_iff.mp h
    obtain ⟨t, hTime, h⟩ := Option.bind_eq_some_iff.mp h
    cases h
    obtain ⟨x, hx, rfl⟩ := dateThen?_eq_some_iff.mp hDate
    obtain rfl := expect?_eq_some_iff.mp hMark
    exact ⟨x, r₂, rfl, date?_eq_some_iff.mpr hx, hTime⟩
  · rintro ⟨x, y, rfl, hx, hy⟩
    simp only [dateTime?, dateThen?_eq_some_iff.mpr ⟨x, date?_eq_some_iff.mp hx, rfl⟩,
      expect?_eq_some_iff.mpr rfl, hy, Option.bind_eq_bind, Option.bind_some]
    rfl

/-! ## Nanoseconds -/

theorem FractionText.nanos_lt (h : FractionText cs n) : n < 10 ^ 9 := by
  cases h with
  | absent => decide
  | @written digits hDigits hLength =>
    have hValue := digitsValue_lt (isDigits_iff.mp hDigits).2
    calc digitsValue digits * 10 ^ (9 - digits.length)
        < 10 ^ digits.length * 10 ^ (9 - digits.length) :=
          Nat.mul_lt_mul_of_pos_right hValue (Nat.pow_pos (by decide))
      _ = 10 ^ 9 := by rw [← Nat.pow_add, Nat.add_sub_cancel' hLength]

theorem SecondText.nanos_lt {second : Option Nat × Nat} (h : SecondText cs second) :
    second.2 < 10 ^ 9 := by
  cases h with
  | absent => decide
  | written _ hFraction => exact hFraction.nanos_lt

theorem TimeText.nanos_lt {f : TimeFields} (h : TimeText cs f) : f.nanos < 10 ^ 9 := by
  obtain ⟨_, _, hSecond, _⟩ := h
  exact hSecond.nanos_lt

/-! ## Designators -/

def EndsInDesignator (cs : List Char) : Prop := ∃ s f, DesignatorText s f ∧ s <:+ cs

/-- The characters of a time before its designator. -/
def IsClockChar (c : Char) : Prop := c.isDigit = true ∨ c = ':' ∨ c = '.'

theorem TwoDigits.isClockChar (h : TwoDigits cs n) : ∀ c ∈ cs, IsClockChar c :=
  fun c hc => .inl ((isDigits_iff.mp h.2.1).2 c hc)

theorem FractionText.isClockChar (h : FractionText cs n) : ∀ c ∈ cs, IsClockChar c := by
  cases h with
  | absent => exact List.forall_mem_nil _
  | written hDigits _ =>
    exact List.forall_mem_cons.mpr
      ⟨.inr (.inr rfl), fun c hc => .inl ((isDigits_iff.mp hDigits).2 c hc)⟩

theorem SecondText.isClockChar {second : Option Nat × Nat} (h : SecondText cs second) :
    ∀ c ∈ cs, IsClockChar c := by
  cases h with
  | absent => exact List.forall_mem_nil _
  | written hSecond hFraction =>
    rw [List.cons_append, List.forall_mem_cons, List.forall_mem_append]
    exact ⟨.inr (.inl rfl), hSecond.isClockChar, hFraction.isClockChar⟩

namespace DesignatorText

variable {s : List Char} {f : OffsetField}

theorem exists_not_isClockChar (h : DesignatorText s f) : ∃ c ∈ s, ¬ IsClockChar c := by
  rcases h with _ | _ | _
  · exact ⟨'Z', List.mem_cons_self, by simp [IsClockChar]⟩
  · exact ⟨'+', List.mem_cons_self, by simp [IsClockChar]⟩
  · exact ⟨'-', List.mem_cons_self, by simp [IsClockChar]⟩

theorem mark_not_mem (h : DesignatorText s f) : 'T' ∉ s := by
  have hDigits {cs : List Char} {n : Nat} (h : TwoDigits cs n) : 'T' ∉ cs :=
    fun hMem => absurd ((isDigits_iff.mp h.2.1).2 'T' hMem) (by decide)
  rcases h with _ | ⟨hHours, hMinutes⟩ | ⟨hHours, hMinutes⟩
  · decide
  · simp [hDigits hHours, hDigits hMinutes]
  · simp [hDigits hHours, hDigits hMinutes]

end DesignatorText

theorem TimeText.offset_isSome_iff {f : TimeFields} (h : TimeText cs f) :
    f.offset.isSome = true ↔ EndsInDesignator cs := by
  obtain ⟨hHour, hMinute, hSecond, hOffset⟩ := h
  cases hOffset with
  | written hDesignator =>
    exact iff_of_true rfl ⟨_, _, hDesignator, List.suffix_append _ _⟩
  | absent =>
    refine iff_of_false (by simp) ?_
    rintro ⟨s, f, hDesignator, hSuffix⟩
    obtain ⟨c, hc, hOther⟩ := hDesignator.exists_not_isClockChar
    refine hOther ?_
    have hMem := hSuffix.subset hc
    simp only [List.append_nil, List.mem_append, List.mem_cons] at hMem
    rcases hMem with (hc | rfl | hc) | hc
    · exact hHour.isClockChar c hc
    · exact .inr (.inl rfl)
    · exact hMinute.isClockChar c hc
    · exact hSecond.isClockChar c hc

theorem endsInDesignator_dateTime_iff {x y : List Char} :
    EndsInDesignator (x ++ 'T' :: y) ↔ EndsInDesignator y := by
  constructor
  · rintro ⟨s, f, hDesignator, hSuffix⟩
    refine ⟨s, f, hDesignator, ?_⟩
    have hMark := hDesignator.mark_not_mem
    rcases List.suffix_or_suffix_of_suffix hSuffix (List.suffix_append x ('T' :: y)) with hShort | hLong
    · rcases List.suffix_cons_iff.mp hShort with rfl | hTime
      · exact absurd List.mem_cons_self hMark
      · exact hTime
    · exact absurd (hLong.subset List.mem_cons_self) hMark
  · rintro ⟨s, f, hDesignator, hSuffix⟩
    exact ⟨s, f, hDesignator,
      (hSuffix.trans (List.suffix_cons 'T' y)).trans (List.suffix_append x ('T' :: y))⟩

end Temporal

end AssetShell
