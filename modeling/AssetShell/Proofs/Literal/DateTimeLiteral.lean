import AssetShell.Proofs.Literal.DateLiteral
import AssetShell.Proofs.Literal.TimeLiteral

/-!
# Date and time literals

A text that joins a date and a time with a `T` is read, checked and given its value by its two parts,
and it can be cut in one place only. The calendar is asked before the clock.
-/

namespace AssetShell

namespace Temporal

theorem DateText.length_eq {cs : List Char} {f : DateFields} (h : DateText cs f) :
    cs.length = 10 := by
  obtain ⟨hCentury, hYear, hMonth, hDay⟩ := h
  simp only [List.length_append, List.length_cons, hCentury.1, hYear.1, hMonth.1, hDay.1]

/-- A text is cut at a `T` into the text of a date and the text of a time. -/
structure Split (raw x y : String) (d : DateFields) (t : TimeFields) : Prop where
  text : raw = x ++ "T" ++ y
  date : date? x.toList = some d
  time : time? y.toList = some t

variable {raw x y x' y' : String} {d d' : DateFields} {t t' : TimeFields}

theorem toList_join (x y : String) : (x ++ "T" ++ y).toList = x.toList ++ 'T' :: y.toList := by
  simp

theorem dateTime?_eq_some_iff_split :
    dateTime? raw.toList = some (d, t) ↔ ∃ x y, Split raw x y d t := by
  rw [dateTime?_eq_some_iff]
  constructor
  · rintro ⟨xs, ys, hText, hDate, hTime⟩
    refine ⟨String.ofList xs, String.ofList ys, ?_, by rwa [String.toList_ofList],
      by rwa [String.toList_ofList]⟩
    rw [← String.toList_inj, toList_join, String.toList_ofList, String.toList_ofList, hText]
  · rintro ⟨x, y, rfl, hDate, hTime⟩
    exact ⟨x.toList, y.toList, toList_join x y, hDate, hTime⟩

namespace Split

theorem read? (h : Split raw x y d t) : dateTime? raw.toList = some (d, t) :=
  dateTime?_eq_some_iff_split.mpr ⟨x, y, h⟩

/-- The dates of two splits have one length. -/
theorem unique (h : Split raw x y d t) (h' : Split raw x' y' d' t') : x = x' ∧ y = y' := by
  have hTexts : x.toList ++ 'T' :: y.toList = x'.toList ++ 'T' :: y'.toList := by
    rw [← toList_join, ← toList_join, ← h.text, ← h'.text]
  have hLength : x.toList.length = x'.toList.length := by
    rw [(date?_eq_some_iff.mp h.date).length_eq, (date?_eq_some_iff.mp h'.date).length_eq]
  obtain ⟨hDate, hTime⟩ := List.append_inj hTexts hLength
  exact ⟨String.toList_inj.mp hDate, String.toList_inj.mp (List.cons.inj hTime).2⟩

end Split

end Temporal

namespace Literal

open Temporal

variable {cs : List Char} {raw x y : String} {d : DateFields} {t : TimeFields}

theorem dateTimeDefect?_eq_none_iff :
    dateTimeDefect? cs = none ↔ ∃ x y d f, cs = x ++ 'T' :: y ∧ DateText x d ∧ TimeText y f ∧
      d.toDate?.isSome = true ∧ f.InBounds := by
  constructor
  · intro h
    unfold dateTimeDefect? at h
    split at h
    · cases h
    · rename_i d f hRead
      split at h
      · rename_i hDate
        obtain ⟨x, y, hSplit, hx, hy⟩ := dateTime?_eq_some_iff.mp hRead
        exact ⟨x, y, d, f, hSplit, date?_eq_some_iff.mp hx, time?_eq_some_iff.mp hy, hDate,
          clockDefect?_eq_none_iff.mp h⟩
      · cases h
  · rintro ⟨x, y, d, f, rfl, hx, hy, hDate, hBounds⟩
    rw [dateTimeDefect?, dateTime?_eq_some_iff.mpr
      ⟨x, y, rfl, date?_eq_some_iff.mpr hx, time?_eq_some_iff.mpr hy⟩]
    exact (if_pos hDate).trans (clockDefect?_eq_none_iff.mpr hBounds)

theorem defect?_of_no_split (h : ¬ ∃ x y d t, Split raw x y d t) :
    defect? .dateTime raw = some (.form .notDateTime) := by
  have hRead : dateTime? raw.toList = none := by
    refine Option.eq_none_iff_forall_ne_some.mpr fun ⟨d, t⟩ hRead => h ?_
    obtain ⟨x, y, hSplit⟩ := dateTime?_eq_some_iff_split.mp hRead
    exact ⟨x, y, d, t, hSplit⟩
  change dateTimeDefect? raw.toList = _
  rw [dateTimeDefect?, hRead]

section

variable (h : Split raw x y d t)

include h

theorem defect?_time_of_split : defect? .time y = clockDefect? t :=
  timeDefect?_of_text (time?_eq_some_iff.mp h.time)

theorem check_date_of_split : check .date x = .ok () ↔ d.toDate?.isSome = true := by
  rw [check_eq_ok_iff]
  change dateDefect? x.toList = none ↔ _
  rw [dateDefect?, h.date]
  exact accepted_iff

/-- On a day of the calendar the time alone decides. -/
theorem defect?_of_day (hDate : check .date x = .ok ()) :
    defect? .dateTime raw = defect? .time y := by
  change dateTimeDefect? raw.toList = _
  rw [dateTimeDefect?, h.read?, defect?_time_of_split h]
  exact if_pos ((check_date_of_split h).mp hDate)

theorem defect?_of_no_day (hDate : ¬ check .date x = .ok ()) :
    defect? .dateTime raw = some (.form .noSuchDayInDateTime) := by
  change dateTimeDefect? raw.toList = _
  rw [dateTimeDefect?, h.read?]
  exact if_neg (mt (check_date_of_split h).mpr hDate)

theorem check_dateTime_of_split :
    check .dateTime raw = .ok () ↔ check .date x = .ok () ∧ check .time y = .ok () := by
  by_cases hDate : check .date x = .ok ()
  · rw [check_eq_ok_iff, defect?_of_day h hDate, ← check_eq_ok_iff, and_iff_right hDate]
  · rw [check_eq_ok_iff, defect?_of_no_day h hDate]
    exact iff_of_false nofun fun hBoth => hDate hBoth.1

theorem dateTime_format_error_of_split :
    (∃ e, check .dateTime raw = .error e ∧ e.rule = "format-error") ↔ ¬ check .date x = .ok () := by
  rw [exists_format_error_iff]
  constructor
  · rintro ⟨form, hForm⟩ hDate
    rw [defect?_of_day h hDate, defect?_time_of_split h] at hForm
    obtain ⟨field, hRange, -⟩ := exists_first_of_clockDefect? hForm
    cases hRange
  · intro hDate
    exact ⟨_, defect?_of_no_day h hDate⟩

theorem exists_dateTime_range_error (hDate : check .date x = .ok ())
    (hTime : ¬ check .time y = .ok ()) :
    ∃ field, check .time y = .error ⟨.time, y, .range (.clock field)⟩ ∧
      check .dateTime raw = .error ⟨.dateTime, raw, .range (.clock field)⟩ := by
  obtain ⟨defect, hDefect⟩ := Option.ne_none_iff_exists'.mp (mt check_eq_ok_iff.mpr hTime)
  obtain ⟨field, rfl, -⟩ :=
    exists_first_of_clockDefect? ((defect?_time_of_split h).symm.trans hDefect)
  exact ⟨field, check_eq_error_iff.mpr ⟨_, hDefect, rfl⟩,
    check_eq_error_iff.mpr ⟨_, (defect?_of_day h hDate).trans hDefect, rfl⟩⟩

end

theorem check_dateTime_iff :
    check .dateTime raw = .ok () ↔
      ∃ x y d t, Split raw x y d t ∧ check .date x = .ok () ∧ check .time y = .ok () := by
  constructor
  · intro hCheck
    by_cases hSplit : ∃ x y d t, Split raw x y d t
    · obtain ⟨x, y, d, t, h⟩ := hSplit
      exact ⟨x, y, d, t, h, (check_dateTime_of_split h).mp hCheck⟩
    · rw [check_eq_ok_iff, defect?_of_no_split hSplit] at hCheck
      cases hCheck
  · rintro ⟨x, y, d, t, h, hBoth⟩
    exact (check_dateTime_of_split h).mpr hBoth

theorem dateTime_format_error_iff :
    (∃ e, check .dateTime raw = .error e ∧ e.rule = "format-error") ↔
      (¬ ∃ x y d t, Split raw x y d t) ∨
        ∃ x y d t, Split raw x y d t ∧ ¬ check .date x = .ok () := by
  by_cases hSplit : ∃ x y d t, Split raw x y d t
  · obtain ⟨x, y, d, t, h⟩ := hSplit
    rw [dateTime_format_error_of_split h]
    constructor
    · intro hDate
      exact .inr ⟨x, y, d, t, h, hDate⟩
    · rintro (hNone | ⟨x', y', d', t', h', hDate⟩)
      · exact absurd ⟨x, y, d, t, h⟩ hNone
      · rwa [(h.unique h').1]
  · exact iff_of_true (exists_format_error_iff.mpr ⟨_, defect?_of_no_split hSplit⟩) (.inl hSplit)

end Literal

namespace TypedValue

variable {raw x y : String} {d : DateFields} {t : TimeFields}

theorem ofLiteral_of_split (h : Temporal.Split raw x y d t)
    (hCheck : Literal.check .dateTime raw = .ok ()) :
    ∃ day clock offset, ofLiteral .date x = .date day ∧ ofLiteral .time y = .time clock offset ∧
      ofLiteral .dateTime raw = onDay day clock offset := by
  obtain ⟨hDate, hTime⟩ := (Literal.check_dateTime_of_split h).mp hCheck
  obtain ⟨day, hDay⟩ := Option.isSome_iff_exists.mp ((Literal.check_date_of_split h).mp hDate)
  have hBounds : Literal.clockDefect? t = none :=
    (Literal.defect?_time_of_split h).symm.trans (Literal.check_eq_ok_iff.mp hTime)
  obtain ⟨clock, offset, hClock, hOffset, -⟩ := exists_clock h.time hBounds
  refine ⟨day, clock, offset, ?_, ?_, ?_⟩
  · exact ofLiteral_of_read? (read?_date_of_fields h.date hDay)
  · exact ofLiteral_of_read? (read?_time_of_fields h.time hClock hOffset)
  · exact ofLiteral_of_read? (read?_dateTime_of_fields h.read? hDay hClock hOffset)

end TypedValue

namespace Literal

open Temporal

/-- A date and time is read, accepted, refused and given its value as its two parts are. If it cannot
be cut into these or its date is not in the calendar, its form is refused whatever its clock says. -/
theorem check_dateTime_agrees_with_parts (raw : String) :
    (∀ d t, dateTime? raw.toList = some (d, t) ↔ ∃ x y, Split raw x y d t) ∧
      (∀ x y d t x' y' d' t', Split raw x y d t → Split raw x' y' d' t' → x = x' ∧ y = y') ∧
      (check .dateTime raw = .ok () ↔
        ∃ x y d t, Split raw x y d t ∧ check .date x = .ok () ∧ check .time y = .ok ()) ∧
      ((∃ e, check .dateTime raw = .error e ∧ e.rule = "format-error") ↔
        (¬ ∃ x y d t, Split raw x y d t) ∨
          ∃ x y d t, Split raw x y d t ∧ ¬ check .date x = .ok ()) ∧
      (∀ x y d t, Split raw x y d t → check .date x = .ok () → ¬ check .time y = .ok () →
        ∃ field, check .time y = .error ⟨.time, y, .range (.clock field)⟩ ∧
          check .dateTime raw = .error ⟨.dateTime, raw, .range (.clock field)⟩) ∧
      ∀ x y d t, Split raw x y d t → check .dateTime raw = .ok () →
        ∃ day clock offset, TypedValue.ofLiteral .date x = .date day ∧
          TypedValue.ofLiteral .time y = .time clock offset ∧
          TypedValue.ofLiteral .dateTime raw = TypedValue.onDay day clock offset := by
  exact ⟨fun d t => dateTime?_eq_some_iff_split, fun _ _ _ _ _ _ _ _ h h' => h.unique h',
    check_dateTime_iff, dateTime_format_error_iff, fun _ _ _ _ => exists_dateTime_range_error,
    fun _ _ _ _ => TypedValue.ofLiteral_of_split⟩

/-- A leap day with an hour that no day has, and one with an hour behind universal time. -/
theorem check_dateTime_agrees_with_parts_on_leap_day :
    (∃ field, check .time "24:00" = .error ⟨.time, "24:00", .range (.clock field)⟩ ∧
      check .dateTime "2000-02-29T24:00" =
        .error ⟨.dateTime, "2000-02-29T24:00", .range (.clock field)⟩) ∧
      ∃ day clock offset, TypedValue.ofLiteral .date "2000-02-29" = .date day ∧
        TypedValue.ofLiteral .time "23:59-01:00" = .time clock offset ∧
        TypedValue.ofLiteral .dateTime "2000-02-29T23:59-01:00" =
          TypedValue.onDay day clock offset := by
  have hLate : Split "2000-02-29T24:00" "2000-02-29" "24:00" ⟨2000, 2, 29⟩
      ⟨24, 0, none, 0, none⟩ := ⟨by decide, by decide, by decide⟩
  have hBehind : Split "2000-02-29T23:59-01:00" "2000-02-29" "23:59-01:00" ⟨2000, 2, 29⟩
      ⟨23, 59, none, 0, some (.fixed true 1 0)⟩ := ⟨by decide, by decide, by decide⟩
  obtain ⟨-, -, -, -, hRange, -⟩ := check_dateTime_agrees_with_parts "2000-02-29T24:00"
  obtain ⟨-, -, -, -, -, hValue⟩ := check_dateTime_agrees_with_parts "2000-02-29T23:59-01:00"
  exact ⟨hRange _ _ _ _ hLate (by decide) (by decide), hValue _ _ _ _ hBehind (by decide)⟩

end Literal

end AssetShell
