import AssetShell.Literal.Typed
import AssetShell.Proofs.Literal.IntegerLiteral
import AssetShell.Proofs.Literal.TemporalGrammar

/-!
# Typed values of accepted literals

The check of a literal and the reading of its value agree: a text that is accepted has a value of the
kind its datatype asks for. It stays a text only where the value leaves the range of typed values.
-/

namespace AssetShell

/-! ## Bounds of clocks and offsets -/

theorem guard_eq_none_iff {α : Type} {p : Prop} [Decidable p] {a : α} {rest : Option α} :
    (if p then some a else rest) = none ↔ ¬ p ∧ rest = none := by
  by_cases hp : p <;> simp [hp]

namespace OffsetField

def InBounds : OffsetField → Prop
  | .utc => True
  | .fixed _ hours minutes => hours ≤ 14 ∧ minutes ≤ 59

variable {f : OffsetField}

theorem outOfBounds?_eq_none_iff : f.outOfBounds? = none ↔ f.InBounds := by
  cases f with
  | utc => simp [outOfBounds?, InBounds]
  | fixed negative hours minutes =>
    rw [outOfBounds?, guard_eq_none_iff, guard_eq_none_iff]
    simp only [ClockField.greatest, InBounds, Nat.not_lt, and_true]

/-- Fourteen hours and fifty-nine minutes are less than a day. -/
theorem InBounds.exists_offset (h : f.InBounds) : ∃ o, f.toOffset? = some o := by
  have hSeconds : -86400 < f.seconds ∧ f.seconds < 86400 := by
    cases f with
    | utc => decide
    | fixed negative hours minutes =>
      obtain ⟨hHours, hMinutes⟩ := h
      cases negative <;> simp only [seconds, Bool.false_eq_true, if_true, if_false] <;> omega
  exact ⟨⟨f.seconds, hSeconds.1, hSeconds.2⟩, dif_pos hSeconds⟩

end OffsetField

namespace TimeFields

structure InBounds (f : TimeFields) : Prop where
  hour_le : f.hour ≤ 23
  minute_le : f.minute ≤ 59
  second_le : ∀ s ∈ f.second, s ≤ 59
  offset : ∀ o ∈ f.offset, o.InBounds

variable {f : TimeFields}

theorem outOfBounds?_eq_none_iff : f.outOfBounds? = none ↔ f.InBounds := by
  have hSecond : ¬ f.second.any (ClockField.second.greatest < ·) = true ↔
      ∀ s ∈ f.second, s ≤ 59 := by
    cases f.second with
    | none => simp
    | some s =>
      rw [Option.any_some, decide_eq_true_eq, Nat.not_lt]
      simp [ClockField.greatest]
  rw [outOfBounds?, guard_eq_none_iff, guard_eq_none_iff, guard_eq_none_iff, hSecond,
    Option.bind_eq_none_iff]
  simp only [ClockField.greatest, Nat.not_lt, OffsetField.outOfBounds?_eq_none_iff]
  constructor
  · rintro ⟨hHour, hMinute, hSecond, hOffset⟩
    exact ⟨hHour, hMinute, hSecond, hOffset⟩
  · rintro ⟨hHour, hMinute, hSecond, hOffset⟩
    exact ⟨hHour, hMinute, hSecond, hOffset⟩

theorem InBounds.exists_clockTime (h : f.InBounds) (hNanos : f.nanos < 10 ^ 9) :
    ∃ t, f.toClockTime? = some t := by
  have hSecond : f.second.getD 0 < 60 := by
    cases hSome : f.second with
    | none => decide
    | some s => exact Nat.lt_succ_of_le (h.second_le s hSome)
  have hHour := h.hour_le
  have hMinute := h.minute_le
  exact ⟨_, dif_pos ⟨by omega, by omega, hSecond, hNanos⟩⟩

/-- A time that is read and in bounds has a clock time; so does the time of a date and time. -/
theorem exists_clockTime_of_read {cs : List Char} (hRead : Temporal.time? cs = some f)
    (hBounds : f.outOfBounds? = none) : ∃ t, f.toClockTime? = some t :=
  (outOfBounds?_eq_none_iff.mp hBounds).exists_clockTime
    (Temporal.time?_eq_some_iff.mp hRead).nanos_lt

end TimeFields

namespace TypedValue

/-- The values that a text may have if it is accepted as a literal of a datatype. -/
def Expected (raw : String) (v : TypedValue) : Datatype → Prop
  | .boolean =>
    (raw = "true" ∨ raw = "1") ∧ v = .boolean true ∨
      (raw = "false" ∨ raw = "0") ∧ v = .boolean false ∨ raw = "" ∧ v = .text ""
  | .float | .double => ∃ x, v = .float x
  | .decimal => (∃ x, x.isFinite = true ∧ v = .float x) ∨ v = .text raw
  | .byte | .short | .int | .long | .unsignedByte | .unsignedShort | .unsignedInt | .unsignedLong =>
    ∃ i, DenotesInteger raw.toList i ∧ v = .integer i
  | .nonPositiveInteger | .negativeInteger | .nonNegativeInteger | .positiveInteger =>
    ∃ i, DenotesInteger raw.toList i ∧ v = if Wide.Fits i then .integer i else .text raw
  | .date => ∃ d, v = .date d
  | .time => ∃ t o, v = .time t o ∧ (o.isSome = true ↔ Temporal.EndsInDesignator raw.toList)
  | .dateTime =>
    ∃ d t, Temporal.EndsInDesignator raw.toList ∧ (∃ o, v = .dateTime d t o) ∨
      ¬ Temporal.EndsInDesignator raw.toList ∧ v = .localDateTime d t
  | .string | .normalizedString | .anyURI | .base64Binary | .hexBinary => v = .text raw

theorem toJson_eq_null {v : TypedValue} (h : v.toJson = .null) :
    ∃ x, v = .float x ∧ x.isFinite = false := by
  cases v with
  | float x =>
    rw [toJson] at h
    split at h
    · cases h
    · rename_i hInfinite
      exact ⟨x, rfl, by simpa using hInfinite⟩
  | integer i =>
    rw [toJson] at h
    split at h <;> cases h
  | _ => cases h

theorem Expected.datatype_of_infinite {raw : String} {x : Binary64} {d : Datatype}
    (h : Expected raw (.float x) d) (hInfinite : x.isFinite = false) : d = .float ∨ d = .double := by
  cases d with
  | float => exact .inl rfl
  | double => exact .inr rfl
  | decimal =>
    rcases h with ⟨y, hFinite, hSame⟩ | hText
    · cases hSame
      rw [hInfinite] at hFinite
      cases hFinite
    · cases hText
  | nonPositiveInteger | negativeInteger | nonNegativeInteger | positiveInteger =>
    obtain ⟨i, -, hSame⟩ := h
    split at hSame <;> cases hSame
  | _ => simp [Expected] at h

/-! ## Reading an accepted literal -/

variable {d : Datatype} {raw : String}

theorem ofInteger?_of_denotes {cs : List Char} {i : Int} (h : DenotesInteger cs i) :
    ofInteger? cs = if Wide.Fits i then some (.integer i) else none := by
  obtain ⟨t, ht, rfl⟩ := IntegerText.denotesInteger_iff.mp h
  rw [ofInteger?, ht, Option.bind_eq_bind, Option.bind_some, IntegerText.wide?_eq]
  split
  · rename_i hFits
    rw [Wide.ofInt?_of_fits hFits]
    rfl
  · rename_i hWide
    rw [Wide.ofInt?_eq_none_iff.mpr hWide]
    rfl

theorem read?_integer {m : IntegerClass} (hm : d.integers? = some m)
    (h : Literal.check d raw = .ok ()) :
    ∃ i, DenotesInteger raw.toList i ∧ m.contains i = true ∧
      read? d raw = if Wide.Fits i then some (.integer i) else none := by
  have hInteger : d.isInteger = true := by rw [Datatype.isInteger, hm, Option.isSome_some]
  by_cases hDenotes : ∃ i, DenotesInteger raw.toList i
  · obtain ⟨i, hi⟩ := hDenotes
    rw [Literal.check_of_integer hm hi] at h
    split at h
    · rename_i hMember
      exact ⟨i, hi, hMember, (if_pos hInteger).trans (ofInteger?_of_denotes hi)⟩
    · cases h
  · rw [Literal.check_of_no_integer hm hDenotes] at h
    cases h

theorem read?_bounded {lo hi : Int} (hm : d.integers? = some (.between lo hi))
    (h : Literal.check d raw = .ok ()) :
    ∃ v, read? d raw = some v ∧ ∃ i, DenotesInteger raw.toList i ∧ v = .integer i := by
  obtain ⟨i, hi, hMember, hRead⟩ := read?_integer hm h
  have hFits : Wide.Fits i := by
    obtain ⟨hLow, hHigh⟩ := Datatype.integers?_narrow hm
    simp only [IntegerClass.contains, Bool.and_eq_true, decide_eq_true_eq] at hMember
    exact ⟨hLow.trans hMember.1, hMember.2.trans hHigh⟩
  rw [if_pos hFits] at hRead
  exact ⟨_, hRead, i, hi, rfl⟩

theorem read?_boolean (h : Literal.check .boolean raw = .ok ()) :
    ∃ v, read? .boolean raw = some v ∧ Expected raw v .boolean := by
  have hMember : raw ∈ Literal.booleans := Literal.accepted_iff.mp (Literal.check_eq_ok_iff.mp h)
  simp only [Literal.booleans, List.mem_cons, List.not_mem_nil, or_false] at hMember
  rcases hMember with rfl | rfl | rfl | rfl | rfl
  · exact ⟨.boolean true, rfl, by simp [Expected]⟩
  · exact ⟨.boolean false, rfl, by simp [Expected]⟩
  · exact ⟨.boolean true, rfl, by simp [Expected]⟩
  · exact ⟨.boolean false, rfl, by simp [Expected]⟩
  · exact ⟨.text "", rfl, by simp [Expected]⟩

theorem ofFloat?_of_isSome {cs : List Char} (h : (FloatText.read? cs).isSome = true) :
    ∃ x, ofFloat? cs = some (.float x) := by
  obtain ⟨t, ht⟩ := Option.isSome_iff_exists.mp h
  exact ⟨t.toBinary64, by rw [ofFloat?, ht, Option.map_some]⟩

/-! ### Dates and times -/

/-- The value of a date and time: local if no offset is written. -/
def onDay (d : Date) (t : ClockTime) : Option Offset → TypedValue
  | none => .localDateTime d t
  | some o => .dateTime d t o

section

variable {df : DateFields} {tf : TimeFields} {v : Date} {t : ClockTime} {o : Option Offset}

theorem read?_date_of_fields (hRead : Temporal.date? raw.toList = some df)
    (hDate : df.toDate? = some v) : read? .date raw = some (.date v) := by
  change ofDate? raw.toList = _
  rw [ofDate?, hRead, Option.bind_eq_bind, Option.bind_some, hDate]
  rfl

theorem read?_time_of_fields (hRead : Temporal.time? raw.toList = some tf)
    (hClock : tf.toClockTime? = some t) (hOffset : offset? tf.offset = some o) :
    read? .time raw = some (.time t o) := by
  change ofTime? raw.toList = _
  simp only [ofTime?, hRead, hOffset, hClock, Option.bind_eq_bind, Option.bind_some]
  rfl

theorem read?_dateTime_of_fields (hRead : Temporal.dateTime? raw.toList = some (df, tf))
    (hDate : df.toDate? = some v) (hClock : tf.toClockTime? = some t)
    (hOffset : offset? tf.offset = some o) : read? .dateTime raw = some (onDay v t o) := by
  change ofDateTime? raw.toList = _
  simp only [ofDateTime?, hRead, hDate, hClock, hOffset, Option.bind_eq_bind, Option.bind_some]
  cases o <;> rfl

end

theorem read?_date (h : Literal.check .date raw = .ok ()) :
    ∃ v, read? .date raw = some (.date v) := by
  have hDefect : Literal.dateDefect? raw.toList = none := Literal.check_eq_ok_iff.mp h
  unfold Literal.dateDefect? at hDefect
  split at hDefect
  · cases hDefect
  · rename_i f hRead
    obtain ⟨v, hv⟩ := Option.isSome_iff_exists.mp (Literal.accepted_iff.mp hDefect)
    exact ⟨v, read?_date_of_fields hRead hv⟩

/-- A time that is read and in bounds has a clock time, and an offset if it ends in a designator. -/
theorem exists_clock {cs : List Char} {f : TimeFields} (hRead : Temporal.time? cs = some f)
    (hBounds : Literal.clockDefect? f = none) :
    ∃ t o, f.toClockTime? = some t ∧ offset? f.offset = some o ∧
      (o.isSome = true ↔ Temporal.EndsInDesignator cs) := by
  have hNone : f.outOfBounds? = none := Option.map_eq_none_iff.mp hBounds
  obtain ⟨t, ht⟩ := TimeFields.exists_clockTime_of_read hRead hNone
  have hDesignator := (Temporal.time?_eq_some_iff.mp hRead).offset_isSome_iff
  cases hOffset : f.offset with
  | none =>
    rw [hOffset] at hDesignator
    exact ⟨t, none, ht, rfl, hDesignator⟩
  | some g =>
    rw [hOffset] at hDesignator
    have hInBounds := (TimeFields.outOfBounds?_eq_none_iff.mp hNone).offset g hOffset
    obtain ⟨o, ho⟩ := hInBounds.exists_offset
    exact ⟨t, some o, ht, by rw [offset?, ho, Option.map_some], hDesignator⟩

theorem read?_time (h : Literal.check .time raw = .ok ()) :
    ∃ v, read? .time raw = some v ∧ Expected raw v .time := by
  have hDefect : Literal.timeDefect? raw.toList = none := Literal.check_eq_ok_iff.mp h
  unfold Literal.timeDefect? at hDefect
  split at hDefect
  · cases hDefect
  · rename_i f hRead
    obtain ⟨t, o, ht, ho, hDesignator⟩ := exists_clock hRead hDefect
    exact ⟨.time t o, read?_time_of_fields hRead ht ho, t, o, rfl, hDesignator⟩

theorem read?_dateTime (h : Literal.check .dateTime raw = .ok ()) :
    ∃ v, read? .dateTime raw = some v ∧ Expected raw v .dateTime := by
  have hDefect : Literal.dateTimeDefect? raw.toList = none := Literal.check_eq_ok_iff.mp h
  unfold Literal.dateTimeDefect? at hDefect
  split at hDefect
  · cases hDefect
  · rename_i df tf hRead
    split at hDefect
    · rename_i hDate
      obtain ⟨d, hd⟩ := Option.isSome_iff_exists.mp hDate
      obtain ⟨x, y, hSplit, -, hTime⟩ := Temporal.dateTime?_eq_some_iff.mp hRead
      obtain ⟨t, o, ht, ho, hDesignator⟩ := exists_clock hTime hDefect
      rw [← Temporal.endsInDesignator_dateTime_iff, ← hSplit] at hDesignator
      refine ⟨_, read?_dateTime_of_fields hRead hd ht ho, d, t, ?_⟩
      cases o with
      | none => exact .inr ⟨by simpa using hDesignator, rfl⟩
      | some o => exact .inl ⟨hDesignator.mp rfl, o, rfl⟩
    · cases hDefect

/-! ### All datatypes -/

theorem read?_decimal (raw : String) :
    (∃ v, read? .decimal raw = some v ∧ Expected raw v .decimal) ∨ read? .decimal raw = none := by
  cases hRead : read? .decimal raw with
  | none => exact .inr rfl
  | some v =>
    obtain ⟨t, -, hValue⟩ := Option.bind_eq_some_iff.mp hRead
    split at hValue
    · rename_i hFinite
      exact .inl ⟨v, rfl, .inl ⟨t.toBinary64, hFinite, (Option.some.inj hValue).symm⟩⟩
    · cases hValue

/-- An accepted literal has a value, save decimals and integers that leave the range of values. -/
theorem read?_of_check (h : Literal.check d raw = .ok ()) :
    (∃ v, read? d raw = some v ∧ Expected raw v d) ∨
      read? d raw = none ∧ Expected raw (.text raw) d ∧
        (d = .decimal ∨ ∃ i, DenotesInteger raw.toList i ∧ ¬ Wide.Fits i) := by
  cases d with
  | boolean => exact .inl (read?_boolean h)
  | decimal =>
    rcases read?_decimal raw with hRead | hNone
    · exact .inl hRead
    · exact .inr ⟨hNone, .inr rfl, .inl rfl⟩
  | float | double =>
    obtain ⟨x, hx⟩ := ofFloat?_of_isSome (Literal.accepted_iff.mp (Literal.check_eq_ok_iff.mp h))
    exact .inl ⟨.float x, hx, x, rfl⟩
  | byte | short | int | long | unsignedByte | unsignedShort | unsignedInt | unsignedLong =>
    exact .inl (read?_bounded rfl h)
  | nonPositiveInteger | negativeInteger | nonNegativeInteger | positiveInteger =>
    obtain ⟨i, hi, -, hRead⟩ := read?_integer rfl h
    by_cases hFits : Wide.Fits i
    · rw [if_pos hFits] at hRead
      exact .inl ⟨_, hRead, i, hi, (if_pos hFits).symm⟩
    · rw [if_neg hFits] at hRead
      exact .inr ⟨hRead, ⟨i, hi, (if_neg hFits).symm⟩, .inr ⟨i, hi, hFits⟩⟩
  | date =>
    obtain ⟨v, hv⟩ := read?_date h
    exact .inl ⟨.date v, hv, v, rfl⟩
  | time => exact .inl (read?_time h)
  | dateTime => exact .inl (read?_dateTime h)
  | string | normalizedString | anyURI | base64Binary | hexBinary => exact .inl ⟨_, rfl, rfl⟩

theorem ofLiteral_expected (h : Literal.check d raw = .ok ()) :
    Expected raw (ofLiteral d raw) d := by
  rcases read?_of_check h with ⟨v, hRead, hExpected⟩ | ⟨hNone, hExpected, -⟩
  · rwa [ofLiteral_of_read? hRead]
  · rwa [ofLiteral, hNone, Option.getD_none]

/-- The check and the typed value of a literal agree, and every time and offset within the bounds of
the check exists. -/
theorem ofLiteral_agrees_with_check :
    (∀ d raw, Literal.check d raw = .ok () →
      Expected raw (ofLiteral d raw) d ∧
        (read? d raw = none → d = .decimal ∨ ∃ i, DenotesInteger raw.toList i ∧ ¬ Wide.Fits i) ∧
        ((ofLiteral d raw).toJson = .null → d = .float ∨ d = .double)) ∧
      (∀ cs f, Temporal.time? cs = some f → f.outOfBounds? = none →
        ∃ t, f.toClockTime? = some t) ∧
      ∀ f : OffsetField, f.outOfBounds? = none → ∃ o, f.toOffset? = some o := by
  refine ⟨fun d raw h => ⟨ofLiteral_expected h, ?_, ?_⟩, ?_, ?_⟩
  · intro hNone
    rcases read?_of_check h with ⟨v, hRead, -⟩ | ⟨-, -, hBeyond⟩
    · rw [hNone] at hRead
      cases hRead
    · exact hBeyond
  · intro hNull
    obtain ⟨x, hx, hInfinite⟩ := toJson_eq_null hNull
    have hExpected := ofLiteral_expected h
    rw [hx] at hExpected
    exact hExpected.datatype_of_infinite hInfinite
  · intro cs f hRead hBounds
    exact TimeFields.exists_clockTime_of_read hRead hBounds
  · intro f hBounds
    exact (OffsetField.outOfBounds?_eq_none_iff.mp hBounds).exists_offset

theorem ofLiteral_time_with_offset :
    Literal.check .time "08:15:30.25-03:00" = .ok () ∧
      ∃ t o, ofLiteral .time "08:15:30.25-03:00" = .time t o ∧
        (o.isSome = true ↔ Temporal.EndsInDesignator "08:15:30.25-03:00".toList) := by
  have hCheck : Literal.check .time "08:15:30.25-03:00" = .ok () := by decide
  exact ⟨hCheck, (ofLiteral_agrees_with_check.1 .time _ hCheck).1⟩

end TypedValue

end AssetShell
