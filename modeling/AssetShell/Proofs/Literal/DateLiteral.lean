import AssetShell.Proofs.Literal.Agreement
import AssetShell.Proofs.Literal.CalendarText

/-!
# Date literals

A date literal is accepted exactly if it is `YYYY-MM-DD` and these numbers are a day of the proleptic
Gregorian calendar from year 1 on. Every other text is refused for its form.
-/

namespace AssetShell

/-! ## Days of the calendar -/

def IsLeapYear (year : Nat) : Prop := 4 ∣ year ∧ ¬ 100 ∣ year ∨ 400 ∣ year

inductive MonthLength (year : Nat) : Nat → Nat → Prop
  | long {month : Nat} (h : month ∈ [1, 3, 5, 7, 8, 10, 12]) : MonthLength year month 31
  | short {month : Nat} (h : month ∈ [4, 6, 9, 11]) : MonthLength year month 30
  | february (h : ¬ IsLeapYear year) : MonthLength year 2 28
  | leapFebruary (h : IsLeapYear year) : MonthLength year 2 29

/-- A day of the proleptic Gregorian calendar from year 1 on. -/
structure IsDay (year month day : Nat) : Prop where
  one_le_year : 1 ≤ year
  one_le_day : 1 ≤ day
  day_le : ∃ length, MonthLength year month length ∧ day ≤ length

variable {year month day length : Nat}

theorem isLeapYear_iff : isLeapYear year = true ↔ IsLeapYear year := by
  simp only [isLeapYear, IsLeapYear, Nat.dvd_iff_mod_eq_zero, Bool.or_eq_true, Bool.and_eq_true,
    decide_eq_true_eq]

namespace MonthLength

theorem daysInMonth (h : MonthLength year month length) : daysInMonth year month = length := by
  cases h with
  | long h =>
    simp only [List.mem_cons, List.not_mem_nil, or_false] at h
    rcases h with rfl | rfl | rfl | rfl | rfl | rfl | rfl <;> rfl
  | short h =>
    simp only [List.mem_cons, List.not_mem_nil, or_false] at h
    rcases h with rfl | rfl | rfl | rfl <;> rfl
  | february h => exact if_neg (mt isLeapYear_iff.mp h)
  | leapFebruary h => exact if_pos (isLeapYear_iff.mpr h)

theorem exists_length_iff :
    (∃ length, MonthLength year month length) ↔ 1 ≤ month ∧ month ≤ 12 := by
  constructor
  · rintro ⟨length, h⟩
    cases h with
    | long h | short h =>
      simp only [List.mem_cons, List.not_mem_nil, or_false] at h
      omega
    | february | leapFebruary => decide
  · rintro ⟨hLow, hHigh⟩
    have hMonth : month = 2 ∨ month ∈ [4, 6, 9, 11] ∨ month ∈ [1, 3, 5, 7, 8, 10, 12] := by
      simp only [List.mem_cons, List.not_mem_nil, or_false]
      omega
    rcases hMonth with rfl | hShort | hLong
    · by_cases hLeap : IsLeapYear year
      · exact ⟨29, .leapFebruary hLeap⟩
      · exact ⟨28, .february hLeap⟩
    · exact ⟨30, .short hShort⟩
    · exact ⟨31, .long hLong⟩

end MonthLength

theorem isDay_iff :
    IsDay year month day ↔ 1 ≤ year ∧ 1 ≤ month ∧ month ≤ 12 ∧ 1 ≤ day ∧
      day ≤ daysInMonth year month := by
  constructor
  · rintro ⟨hYear, hDay, length, hLength, hLe⟩
    obtain ⟨hLow, hHigh⟩ := MonthLength.exists_length_iff.mp ⟨length, hLength⟩
    exact ⟨hYear, hLow, hHigh, hDay, hLength.daysInMonth ▸ hLe⟩
  · rintro ⟨hYear, hLow, hHigh, hDay, hLe⟩
    obtain ⟨length, hLength⟩ := MonthLength.exists_length_iff.mpr ⟨hLow, hHigh⟩
    exact ⟨hYear, hDay, length, hLength, hLength.daysInMonth ▸ hLe⟩

theorem isSome_toDate?_iff {f : DateFields} :
    f.toDate?.isSome = true ↔ IsDay f.year f.month f.day := by
  rw [isDay_iff, DateFields.toDate?, Date.ofFields?]
  split
  · rename_i hDay
    exact iff_of_true rfl hDay
  · rename_i hNoDay
    exact iff_of_false Bool.false_ne_true hNoDay

/-! ## Texts of dates -/

namespace Temporal

def FourDigits (cs : List Char) (n : Nat) : Prop :=
  cs.length = 4 ∧ isDigits cs = true ∧ n = digitsValue cs

/-- The text `YYYY-MM-DD` with the numbers of its three groups of digits. -/
inductive YearMonthDay : List Char → Nat → Nat → Nat → Prop
  | mk {y m d : List Char} {year month day : Nat} (hYear : FourDigits y year)
    (hMonth : TwoDigits m month) (hDay : TwoDigits d day) :
    YearMonthDay (y ++ '-' :: m ++ '-' :: d) year month day

variable {cs : List Char} {n : Nat}

theorem fourDigits_iff :
    FourDigits cs n ↔ ∃ c y century year, TwoDigits c century ∧ TwoDigits y year ∧ cs = c ++ y ∧
      n = 100 * century + year := by
  constructor
  · rintro ⟨hLength, hDigits, rfl⟩
    match cs, hLength with
    | [a, b, c, d], _ =>
      simp only [isDigits_iff, List.forall_mem_cons] at hDigits
      obtain ⟨-, ha, hb, hc, hd, -⟩ := hDigits
      have hFront : isDigits [a, b] = true := by simp [isDigits, ha, hb]
      have hBack : isDigits [c, d] = true := by simp [isDigits, hc, hd]
      exact ⟨[a, b], [c, d], _, _, ⟨rfl, hFront, rfl⟩, ⟨rfl, hBack, rfl⟩, rfl,
        digitsValue_append [a, b] [c, d]⟩
  · rintro ⟨c, y, century, year, ⟨hC, hCDigits, rfl⟩, ⟨hY, hYDigits, rfl⟩, rfl, rfl⟩
    obtain ⟨hNonempty, hFront⟩ := isDigits_iff.mp hCDigits
    have hDigits : isDigits (c ++ y) = true :=
      isDigits_iff.mpr ⟨List.append_ne_nil_of_left_ne_nil hNonempty y,
        List.forall_mem_append.mpr ⟨hFront, (isDigits_iff.mp hYDigits).2⟩⟩
    refine ⟨by rw [List.length_append, hC, hY], hDigits, ?_⟩
    rw [digitsValue_append, hY]
    rfl

theorem dateText_iff {f : DateFields} : DateText cs f ↔ YearMonthDay cs f.year f.month f.day := by
  constructor
  · rintro ⟨hCentury, hYear, hMonth, hDay⟩
    exact .mk (fourDigits_iff.mpr ⟨_, _, _, _, hCentury, hYear, rfl, rfl⟩) hMonth hDay
  · intro h
    obtain ⟨year, month, day⟩ := f
    obtain ⟨hFour, hMonth, hDay⟩ := h
    obtain ⟨c, y, century, year, hCentury, hYear, rfl, rfl⟩ := fourDigits_iff.mp hFour
    exact .mk hCentury hYear hMonth hDay

end Temporal

/-! ## The check and the value -/

namespace Literal

open Temporal

variable {cs : List Char} {raw : String}

theorem dateDefect?_eq_none_iff :
    dateDefect? cs = none ↔ ∃ f, DateText cs f ∧ f.toDate?.isSome = true := by
  constructor
  · intro h
    unfold dateDefect? at h
    split at h
    · cases h
    · rename_i f hRead
      exact ⟨f, date?_eq_some_iff.mp hRead, accepted_iff.mp h⟩
  · rintro ⟨f, hText, hDate⟩
    rw [dateDefect?, date?_eq_some_iff.mpr hText]
    exact if_pos hDate

theorem check_date_iff :
    check .date raw = .ok () ↔
      ∃ year month day, YearMonthDay raw.toList year month day ∧ IsDay year month day := by
  have hDefect : defect? .date raw = dateDefect? raw.toList := rfl
  rw [check_eq_ok_iff, hDefect, dateDefect?_eq_none_iff]
  constructor
  · rintro ⟨f, hText, hDate⟩
    exact ⟨f.year, f.month, f.day, dateText_iff.mp hText, isSome_toDate?_iff.mp hDate⟩
  · rintro ⟨year, month, day, hText, hDay⟩
    exact ⟨⟨year, month, day⟩, dateText_iff.mpr hText, isSome_toDate?_iff.mpr hDay⟩

/-- A date is refused for its form only. -/
theorem exists_form_of_dateDefect? {defect : LiteralDefect} (h : dateDefect? cs = some defect) :
    ∃ form, defect = .form form := by
  unfold dateDefect? at h
  split at h
  · cases h
    exact ⟨_, rfl⟩
  · split at h
    · cases h
    · cases h
      exact ⟨_, rfl⟩

theorem ofLiteral_date (hText : YearMonthDay raw.toList year month day)
    (hDay : IsDay year month day) :
    ∃ d, TypedValue.ofLiteral .date raw = .date d ∧ d.year = year ∧ d.month = month ∧
      d.day = day := by
  have hRead := date?_eq_some_iff.mpr (dateText_iff (f := ⟨year, month, day⟩).mpr hText)
  obtain ⟨d, hd⟩ := Option.isSome_iff_exists.mp (isSome_toDate?_iff (f := ⟨year, month, day⟩).mpr hDay)
  obtain ⟨rfl, rfl, rfl⟩ := DateFields.mk.inj (fields_of_toDate? hd)
  exact ⟨d, TypedValue.ofLiteral_of_read? (TypedValue.read?_date_of_fields hRead hd), rfl, rfl, rfl⟩

/-- The accepted dates are the days of the calendar, every other text has the wrong form, and the
value of an accepted date is the day that is written. -/
theorem check_date_literal_iff (raw : String) :
    (check .date raw = .ok () ↔
        ∃ year month day, YearMonthDay raw.toList year month day ∧ IsDay year month day) ∧
      ((∃ f, check .date raw = .error f ∧ f.rule = "format-error") ↔
        ¬ ∃ year month day, YearMonthDay raw.toList year month day ∧ IsDay year month day) ∧
      ∀ year month day, YearMonthDay raw.toList year month day → IsDay year month day →
        ∃ d, TypedValue.ofLiteral .date raw = .date d ∧ d.year = year ∧ d.month = month ∧
          d.day = day := by
  refine ⟨check_date_iff, ?_, fun _ _ _ => ofLiteral_date⟩
  rw [← check_date_iff]
  exact exists_format_error_iff_of_form fun _ => exists_form_of_dateDefect?

/-- The leap day of a year that 400 divides. -/
theorem check_date_literal_iff_at_leap_day :
    YearMonthDay "2000-02-29".toList 2000 2 29 ∧ IsDay 2000 2 29 ∧
      check .date "2000-02-29" = .ok () ∧
      ∃ d, TypedValue.ofLiteral .date "2000-02-29" = .date d ∧ d.year = 2000 ∧ d.month = 2 ∧
        d.day = 29 := by
  have hText : YearMonthDay "2000-02-29".toList 2000 2 29 :=
    dateText_iff (f := ⟨2000, 2, 29⟩).mp (date?_eq_some_iff.mp (by decide))
  have hDay : IsDay 2000 2 29 := ⟨by decide, by decide, 29, .leapFebruary (.inr (by decide)), le_rfl⟩
  obtain ⟨hCheck, -, hValue⟩ := check_date_literal_iff "2000-02-29"
  exact ⟨hText, hDay, hCheck.mpr ⟨2000, 2, 29, hText, hDay⟩, hValue 2000 2 29 hText hDay⟩

end Literal

end AssetShell
