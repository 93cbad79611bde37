import AssetShell.Proofs.Literal.Agreement
import AssetShell.Proofs.Literal.ClockArithmetic
import AssetShell.Proofs.Selection

/-!
# Time literals

A time literal is accepted exactly if it is `HH:MM[:SS[.fff]][Z|±HH:MM]` and each of its fields is
within its bounds. Of the fields that are not, the one that is written first is reported.
-/

namespace AssetShell

/-! ## The first field that is too large -/

def ClockField.rank : ClockField → Nat
  | .hour => 0
  | .minute => 1
  | .second => 2
  | .offsetHour => 3
  | .offsetMinute => 4

namespace OffsetField

inductive Exceeds : OffsetField → ClockField → Prop
  | hours {negative : Bool} {hours minutes : Nat} (h : 14 < hours) :
    Exceeds (.fixed negative hours minutes) .offsetHour
  | minutes {negative : Bool} {hours minutes : Nat} (h : 59 < minutes) :
    Exceeds (.fixed negative hours minutes) .offsetMinute

variable {f : OffsetField} {field : ClockField}

theorem Exceeds.two_lt_rank (h : f.Exceeds field) : 2 < field.rank := by
  cases h <;> decide

theorem outOfBounds?_selects (f : OffsetField) :
    Selects ClockField.rank f.Exceeds f.outOfBounds? := by
  cases f with
  | utc => exact (Selects.none _).congr fun field => iff_of_false id nofun
  | fixed negative hours minutes =>
    have hMinutes := (Selects.none ClockField.rank).guard (p := 59 < minutes)
      (x := ClockField.offsetMinute) nofun
    have hBoth := hMinutes.guard (p := 14 < hours) (x := ClockField.offsetHour) <| by
      rintro _ (⟨-, rfl⟩ | h)
      · decide
      · exact h.elim
    refine hBoth.congr fun field => ?_
    constructor
    · rintro (⟨h, rfl⟩ | ⟨h, rfl⟩ | h)
      · exact .hours h
      · exact .minutes h
      · exact h.elim
    · rintro (h | h)
      · exact .inl ⟨h, rfl⟩
      · exact .inr (.inl ⟨h, rfl⟩)

end OffsetField

namespace TimeFields

/-- The fields of a time that are larger than a day, an hour or a minute allows, and those of its
offset. -/
inductive Exceeds (f : TimeFields) : ClockField → Prop
  | hour (h : 23 < f.hour) : Exceeds f .hour
  | minute (h : 59 < f.minute) : Exceeds f .minute
  | second {s : Nat} (hSecond : f.second = some s) (h : 59 < s) : Exceeds f .second
  | offset {o : OffsetField} {field : ClockField} (hOffset : f.offset = some o)
    (h : o.Exceeds field) : Exceeds f field

variable {f : TimeFields} {field : ClockField}

theorem outOfBounds?_selects (f : TimeFields) :
    Selects ClockField.rank f.Exceeds f.outOfBounds? := by
  have hOffset : Selects ClockField.rank (fun field => ∃ o, f.offset = some o ∧ o.Exceeds field)
      (f.offset.bind OffsetField.outOfBounds?) := by
    cases f.offset with
    | none => exact (Selects.none _).congr fun field => by simp
    | some o => exact o.outOfBounds?_selects.congr fun field => by simp
  have hSecond := hOffset.guard (p := f.second.any (59 < ·) = true) (x := ClockField.second)
    fun field ⟨_, _, h⟩ => h.two_lt_rank
  have hMinute := hSecond.guard (p := 59 < f.minute) (x := ClockField.minute) <| by
    rintro _ (⟨-, rfl⟩ | ⟨_, -, h⟩)
    · decide
    · exact Nat.lt_trans (by decide) h.two_lt_rank
  have hHour := hMinute.guard (p := 23 < f.hour) (x := ClockField.hour) <| by
    rintro _ (⟨-, rfl⟩ | ⟨-, rfl⟩ | ⟨_, -, h⟩)
    · decide
    · decide
    · exact Nat.lt_trans (by decide) h.two_lt_rank
  refine hHour.congr fun field => ?_
  constructor
  · rintro (⟨h, rfl⟩ | ⟨h, rfl⟩ | ⟨h, rfl⟩ | ⟨o, ho, h⟩)
    · exact .hour h
    · exact .minute h
    · obtain ⟨s, hs, hLt⟩ := (Option.any_eq_true _ _).mp h
      exact .second hs (of_decide_eq_true hLt)
    · exact .offset ho h
  · rintro (h | h | ⟨hs, h⟩ | ⟨ho, h⟩)
    · exact .inl ⟨h, rfl⟩
    · exact .inr (.inl ⟨h, rfl⟩)
    · exact .inr (.inr (.inl ⟨by simpa [hs] using h, rfl⟩))
    · exact .inr (.inr (.inr ⟨_, ho, h⟩))

end TimeFields

/-! ## The check -/

namespace Literal

open Temporal

variable {cs : List Char} {raw : String} {f : TimeFields}

theorem clockDefect?_eq_none_iff : clockDefect? f = none ↔ f.InBounds := by
  rw [clockDefect?, Option.map_eq_none_iff, TimeFields.outOfBounds?_eq_none_iff]

theorem exists_first_of_clockDefect? {defect : LiteralDefect} (h : clockDefect? f = some defect) :
    ∃ field, defect = .range (.clock field) ∧ f.Exceeds field ∧
      ∀ other, f.Exceeds other → field.rank ≤ other.rank := by
  obtain ⟨field, hField, rfl⟩ := Option.map_eq_some_iff.mp h
  exact ⟨field, rfl, (f.outOfBounds?_selects field).mp hField⟩

theorem timeDefect?_of_text (h : TimeText cs f) : timeDefect? cs = clockDefect? f := by
  rw [timeDefect?, time?_eq_some_iff.mpr h]

theorem timeDefect?_of_no_text (h : ¬ ∃ f, TimeText cs f) :
    timeDefect? cs = some (.form .notTime) := by
  have hRead : time? cs = none :=
    Option.eq_none_iff_forall_ne_some.mpr fun f hf => h ⟨f, time?_eq_some_iff.mp hf⟩
  rw [timeDefect?, hRead]

theorem timeDefect?_eq_none_iff :
    timeDefect? cs = none ↔ ∃ f, TimeText cs f ∧ f.InBounds := by
  constructor
  · intro h
    by_cases hText : ∃ f, TimeText cs f
    · obtain ⟨f, hf⟩ := hText
      rw [timeDefect?_of_text hf] at h
      exact ⟨f, hf, clockDefect?_eq_none_iff.mp h⟩
    · rw [timeDefect?_of_no_text hText] at h
      cases h
  · rintro ⟨f, hText, hBounds⟩
    rw [timeDefect?_of_text hText]
    exact clockDefect?_eq_none_iff.mpr hBounds

theorem check_time_iff :
    check .time raw = .ok () ↔ ∃ f, TimeText raw.toList f ∧ f.InBounds :=
  check_eq_ok_iff.trans timeDefect?_eq_none_iff

theorem time_format_error_iff :
    (∃ e, check .time raw = .error e ∧ e.rule = "format-error") ↔
      ¬ ∃ f, TimeText raw.toList f := by
  rw [exists_format_error_iff]
  constructor
  · rintro ⟨form, hForm⟩ ⟨f, hText⟩
    obtain ⟨field, hRange, -⟩ :=
      exists_first_of_clockDefect? ((timeDefect?_of_text hText).symm.trans hForm)
    cases hRange
  · intro h
    exact ⟨_, timeDefect?_of_no_text h⟩

theorem exists_time_range_error (hText : TimeText raw.toList f) (h : ¬ f.InBounds) :
    ∃ field, check .time raw = .error ⟨.time, raw, .range (.clock field)⟩ ∧ f.Exceeds field ∧
      ∀ other, f.Exceeds other → field.rank ≤ other.rank := by
  obtain ⟨defect, hDefect⟩ := Option.ne_none_iff_exists'.mp (mt clockDefect?_eq_none_iff.mp h)
  obtain ⟨field, rfl, hFirst⟩ := exists_first_of_clockDefect? hDefect
  exact ⟨field, check_eq_error_iff.mpr ⟨_, (timeDefect?_of_text hText).trans hDefect, rfl⟩, hFirst⟩

/-- A time is read exactly if it has the form, and then gives the numbers that are written. It is
accepted if they are within bounds, and otherwise refused for the first that is not. Integers of 32
bits hold the nanoseconds and the offset of everything that is read. -/
theorem check_time_literal_iff (raw : String) :
    (∀ f, time? raw.toList = some f ↔ TimeText raw.toList f) ∧
      (check .time raw = .ok () ↔ ∃ f, TimeText raw.toList f ∧ f.InBounds) ∧
      ((∃ e, check .time raw = .error e ∧ e.rule = "format-error") ↔
        ¬ ∃ f, TimeText raw.toList f) ∧
      (∀ f, TimeText raw.toList f → ¬ f.InBounds →
        ∃ field, check .time raw = .error ⟨.time, raw, .range (.clock field)⟩ ∧ f.Exceeds field ∧
          ∀ other, f.Exceeds other → field.rank ≤ other.rank) ∧
      (∀ f, TimeText raw.toList f → f.nanos < 10 ^ 9 ∧
        ∀ o, f.offset = some o → Word.seconds? o = some o.seconds) ∧
      ∀ digits n, FractionText ('.' :: digits) n → Word.nanos? digits = some n := by
  refine ⟨fun f => time?_eq_some_iff, check_time_iff, time_format_error_iff,
    fun f => exists_time_range_error, ?_, fun digits n => Word.nanos?_of_fraction⟩
  intro f hText
  exact ⟨hText.nanos_lt, fun o => Word.seconds?_of_time hText⟩

/-- The second is reported, although the hour of the offset is too large as well. -/
theorem check_time_literal_iff_at_leap_second :
    TimeText "23:59:60.5-15:00".toList ⟨23, 59, some 60, 500000000, some (.fixed true 15 0)⟩ ∧
      ¬ TimeFields.InBounds ⟨23, 59, some 60, 500000000, some (.fixed true 15 0)⟩ ∧
      check .time "23:59:60.5-15:00" =
        .error ⟨.time, "23:59:60.5-15:00", .range (.clock .second)⟩ ∧
      Word.nanos? ['5'] = some 500000000 := by
  have hText : TimeText "23:59:60.5-15:00".toList
      ⟨23, 59, some 60, 500000000, some (.fixed true 15 0)⟩ := time?_eq_some_iff.mp (by decide)
  have hBounds : ¬ TimeFields.InBounds ⟨23, 59, some 60, 500000000, some (.fixed true 15 0)⟩ :=
    fun h => absurd (h.second_le 60 rfl) (by decide)
  obtain ⟨-, -, -, hRange, -, hNanos⟩ := check_time_literal_iff "23:59:60.5-15:00"
  obtain ⟨field, hCheck, hExceeds, hFirst⟩ := hRange _ hText hBounds
  have hLeast : field.rank ≤ 2 := hFirst .second (.second rfl (by decide))
  have hFraction : FractionText ['.', '5'] 500000000 := .written (by decide) (by decide)
  refine ⟨hText, hBounds, ?_, hNanos ['5'] _ hFraction⟩
  cases hExceeds with
  | hour h | minute h => exact absurd h (by decide)
  | second => exact hCheck
  | offset _ h => exact absurd hLeast (Nat.not_le_of_lt h.two_lt_rank)

end Literal

end AssetShell
