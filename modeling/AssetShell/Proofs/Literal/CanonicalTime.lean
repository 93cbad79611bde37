import AssetShell.Proofs.Literal.DateTimeLiteral
import Mathlib.Data.Option.Basic
import Mathlib.Data.List.Basic

/-!
# Canonical texts of dates and times

Dates and times are written in a canonical text: the second is always there, the fraction has no
more places than it needs, and universal time is `+00:00`. Two literals have one canonical text
exactly if they say the same.
-/

namespace AssetShell

/-! ## Fields in canonical form -/

namespace OffsetField

/-- The designators of universal time. -/
def zeros : List OffsetField := [.utc, .fixed false 0 0, .fixed true 0 0]

inductive Same : OffsetField → OffsetField → Prop
  | refl (f : OffsetField) : Same f f
  | zero {f g : OffsetField} (hf : f ∈ zeros) (hg : g ∈ zeros) : Same f g

/-- Only an offset behind universal time keeps a minus. -/
def canonical : OffsetField → OffsetField
  | .utc => .fixed false 0 0
  | .fixed negative hours minutes =>
    .fixed (negative && (hours != 0 || minutes != 0)) hours minutes

variable {f g : OffsetField}

theorem canonical_of_mem_zeros (h : f ∈ zeros) : f.canonical = .fixed false 0 0 := by
  simp only [zeros, List.mem_cons, List.not_mem_nil, or_false] at h
  rcases h with rfl | rfl | rfl <;> rfl

theorem inBounds_of_mem_zeros (h : f ∈ zeros) : f.InBounds := by
  simp only [zeros, List.mem_cons, List.not_mem_nil, or_false] at h
  rcases h with rfl | rfl | rfl
  · trivial
  · exact ⟨Nat.zero_le _, Nat.zero_le _⟩
  · exact ⟨Nat.zero_le _, Nat.zero_le _⟩

theorem same_iff : f.Same g ↔ f.canonical = g.canonical := by
  constructor
  · rintro (_ | ⟨hf, hg⟩)
    · rfl
    · rw [canonical_of_mem_zeros hf, canonical_of_mem_zeros hg]
  · intro h
    cases f with
    | utc =>
      cases g with
      | utc => exact .refl .utc
      | fixed negative hours minutes =>
        obtain ⟨-, rfl, rfl⟩ := OffsetField.fixed.inj h
        cases negative <;> exact .zero (by decide) (by decide)
    | fixed negative hours minutes =>
      cases g with
      | utc =>
        obtain ⟨-, rfl, rfl⟩ := OffsetField.fixed.inj h
        cases negative <;> exact .zero (by decide) (by decide)
      | fixed other _ _ =>
        obtain ⟨hSign, rfl, rfl⟩ := OffsetField.fixed.inj h
        by_cases hZero : hours = 0 ∧ minutes = 0
        · obtain ⟨rfl, rfl⟩ := hZero
          cases negative <;> cases other <;> exact .zero (by decide) (by decide)
        · have hWritten : (hours != 0 || minutes != 0) = true := by simpa using by omega
          rw [hWritten, Bool.and_true, Bool.and_true] at hSign
          rw [hSign]
          exact .refl _

theorem seconds_canonical (f : OffsetField) : f.canonical.seconds = f.seconds := by
  cases f with
  | utc => rfl
  | fixed negative hours minutes =>
    by_cases hZero : hours = 0 ∧ minutes = 0
    · obtain ⟨rfl, rfl⟩ := hZero
      cases negative <;> rfl
    · have hWritten : (hours != 0 || minutes != 0) = true := by simpa using by omega
      rw [canonical, hWritten, Bool.and_true]

theorem toOffset?_canonical (f : OffsetField) : f.canonical.toOffset? = f.toOffset? := by
  rw [toOffset?, toOffset?, seconds_canonical]

theorem InBounds.canonical (h : f.InBounds) : f.canonical.InBounds := by
  cases f with
  | utc => exact ⟨Nat.zero_le _, Nat.zero_le _⟩
  | fixed => exact h

/-- The canonical form of an offset field is the one that the offset is written with. -/
theorem InBounds.field_eq_canonical (h : f.InBounds) {o : Offset} (hOffset : f.toOffset? = some o) :
    o.field = f.canonical := by
  have hSeconds : o.seconds = f.seconds := by
    rw [toOffset?, Offset.ofSeconds?] at hOffset
    split at hOffset
    · cases hOffset
      rfl
    · cases hOffset
  rw [Offset.field, hSeconds]
  cases f with
  | utc => rfl
  | fixed negative hours minutes =>
    obtain ⟨-, hMinutes⟩ := h
    rw [OffsetField.canonical, OffsetField.fixed.injEq]
    cases negative with
    | false =>
      simp only [seconds, Bool.false_eq_true, if_false, Bool.false_and, decide_eq_false_iff_not]
      omega
    | true =>
      have hSign : decide ((fixed true hours minutes).seconds < 0) =
          (hours != 0 || minutes != 0) := by
        rw [Bool.eq_iff_iff]
        simp only [seconds, if_true, decide_eq_true_eq, Bool.or_eq_true, bne_iff_ne]
        omega
      rw [hSign, Bool.true_and]
      simp only [seconds, if_true, true_and]
      omega

end OffsetField

namespace TimeFields

/-- Fields that say the same: a second that is not written is the full minute, and no designator is
another thing than universal time. -/
structure Same (f g : TimeFields) : Prop where
  hour : f.hour = g.hour
  minute : f.minute = g.minute
  second : f.second.getD 0 = g.second.getD 0
  nanos : f.nanos = g.nanos
  offset : Option.Rel OffsetField.Same f.offset g.offset

def canonical (f : TimeFields) : TimeFields :=
  ⟨f.hour, f.minute, some (f.second.getD 0), f.nanos, f.offset.map OffsetField.canonical⟩

variable {f g : TimeFields}

theorem same_iff : f.Same g ↔ f.canonical = g.canonical := by
  have hOffset : Option.Rel OffsetField.Same f.offset g.offset ↔
      f.offset.map OffsetField.canonical = g.offset.map OffsetField.canonical := by
    cases f.offset <;> cases g.offset <;> simp [OffsetField.same_iff]
  constructor
  · rintro ⟨hHour, hMinute, hSecond, hNanos, hSame⟩
    rw [canonical, canonical, hHour, hMinute, hSecond, hNanos, hOffset.mp hSame]
  · intro h
    obtain ⟨hHour, hMinute, hSecond, hNanos, hSame⟩ := TimeFields.mk.inj h
    exact ⟨hHour, hMinute, Option.some.inj hSecond, hNanos, hOffset.mpr hSame⟩

theorem toClockTime?_canonical (f : TimeFields) : f.canonical.toClockTime? = f.toClockTime? := rfl

theorem offset?_canonical (f : TimeFields) :
    TypedValue.offset? f.canonical.offset = TypedValue.offset? f.offset := by
  rw [canonical]
  cases f.offset with
  | none => rfl
  | some o => simp only [Option.map_some, TypedValue.offset?, OffsetField.toOffset?_canonical]

theorem InBounds.canonical (h : f.InBounds) : f.canonical.InBounds where
  hour_le := h.hour_le
  minute_le := h.minute_le
  second_le := by
    rintro s ⟨⟩
    cases hSecond : f.second with
    | none => exact Nat.zero_le _
    | some s => exact h.second_le s hSecond
  offset := by
    intro o ho
    obtain ⟨o, hWritten, rfl⟩ := Option.map_eq_some_iff.mp ho
    exact (h.offset o hWritten).canonical

/-- A time in bounds has a value, which is written with the canonical fields. -/
theorem InBounds.exists_text {cs : List Char} (h : f.InBounds) (hText : Temporal.TimeText cs f) :
    ∃ t o, f.toClockTime? = some t ∧ TypedValue.offset? f.offset = some o ∧
      Temporal.TimeText (t.chars ++ (o.map Offset.chars).getD []) f.canonical := by
  obtain ⟨t, ht⟩ := h.exists_clockTime hText.nanos_lt
  have hClock : t.hour = f.hour ∧ t.minute = f.minute ∧ t.second = f.second.getD 0 ∧
      t.nanos = f.nanos := by
    rw [toClockTime?, ClockTime.ofFields?] at ht
    split at ht
    · cases ht
      exact ⟨rfl, rfl, rfl, rfl⟩
    · cases ht
  obtain ⟨hHour, hMinute, hSecond, hNanos⟩ := hClock
  have hOffset : ∃ o, TypedValue.offset? f.offset = some o ∧
      o.map Offset.field = f.offset.map OffsetField.canonical := by
    cases hWritten : f.offset with
    | none => exact ⟨none, rfl, rfl⟩
    | some g =>
      have hBounds := h.offset g hWritten
      obtain ⟨o, ho⟩ := hBounds.exists_offset
      exact ⟨some o, by rw [TypedValue.offset?, ho, Option.map_some],
        congrArg some (hBounds.field_eq_canonical ho)⟩
  obtain ⟨o, ho, hField⟩ := hOffset
  have hWritten := Temporal.timeText_chars t o
  rw [hHour, hMinute, hSecond, hNanos, hField] at hWritten
  exact ⟨t, o, ht, ho, hWritten⟩

end TimeFields

/-! ## Universal time in three ways -/

namespace Temporal

variable {p z : List Char}

theorem TwoDigits.not_suffix_utc {m : List Char} {n : Nat} (h : TwoDigits m n) :
    ¬ m <:+ p ++ ['Z'] := by
  obtain ⟨hLength, hDigits, -⟩ := h
  obtain ⟨a, b, rfl⟩ := List.length_eq_two.mp hLength
  rintro ⟨x, hSame⟩
  have hLast : b = 'Z' := by simpa using congrArg List.getLast? hSame
  have hDigit := (isDigits_iff.mp hDigits).2 b (by simp)
  rw [hLast] at hDigit
  cases hDigit

/-- Another designator may stand in the place of `Z`. -/
theorem TimeText.of_utc {f : TimeFields} (h : TimeText (p ++ ['Z']) f) :
    f.offset = some .utc ∧
      ∀ z g, DesignatorText z g → TimeText (p ++ z) { f with offset := some g } := by
  have hSome := h.offset_isSome_iff.mpr ⟨['Z'], .utc, .utc, List.suffix_append p ['Z']⟩
  have hMinutesEnd (x y m : List Char) : m <:+ x ++ (y ++ ':' :: m) :=
    ((List.suffix_cons ':' m).trans (List.suffix_append y _)).trans (List.suffix_append x _)
  generalize hText : p ++ ['Z'] = cs at h
  obtain ⟨hHour, hMinute, hSecond, hOffset⟩ := h
  rcases hOffset with _ | (_ | ⟨hHours, hMinutes⟩ | ⟨hHours, hMinutes⟩)
  · cases hSome
  · obtain rfl := List.append_cancel_right hText
    exact ⟨rfl, fun z g hz => .mk hHour hMinute hSecond (.written hz)⟩
  · exact absurd (hText ▸ hMinutesEnd _ _ _) hMinutes.not_suffix_utc
  · exact absurd (hText ▸ hMinutesEnd _ _ _) hMinutes.not_suffix_utc

end Temporal

/-! ## Moments -/

/-- What a date, a time or a date and time says. -/
inductive Moment
  | date (day : DateFields)
  | time (clock : TimeFields)
  | dateTime (day : DateFields) (clock : TimeFields)

namespace Moment

def datatype : Moment → Datatype
  | .date _ => .date
  | .time _ => .time
  | .dateTime _ _ => .dateTime

inductive Text : List Char → Moment → Prop
  | date {cs : List Char} {day : DateFields} (h : Temporal.DateText cs day) : Text cs (.date day)
  | time {cs : List Char} {clock : TimeFields} (h : Temporal.TimeText cs clock) :
    Text cs (.time clock)
  | dateTime {x y : List Char} {day : DateFields} {clock : TimeFields}
    (hDay : Temporal.DateText x day) (hClock : Temporal.TimeText y clock) :
    Text (x ++ 'T' :: y) (.dateTime day clock)

inductive Same : Moment → Moment → Prop
  | date (day : DateFields) : Same (.date day) (.date day)
  | time {f g : TimeFields} (h : f.Same g) : Same (.time f) (.time g)
  | dateTime (day : DateFields) {f g : TimeFields} (h : f.Same g) :
    Same (.dateTime day f) (.dateTime day g)

def Exists : Moment → Prop
  | .date day => day.toDate?.isSome = true
  | .time clock => clock.InBounds
  | .dateTime day clock => day.toDate?.isSome = true ∧ clock.InBounds

def canonical : Moment → Moment
  | .date day => .date day
  | .time clock => .time clock.canonical
  | .dateTime day clock => .dateTime day clock.canonical

def value? : Moment → Option TypedValue
  | .date day => day.toDate?.map .date
  | .time clock => do
    let offset ← TypedValue.offset? clock.offset
    let t ← clock.toClockTime?
    return .time t offset
  | .dateTime day clock => do
    let d ← day.toDate?
    let t ← clock.toClockTime?
    match ← TypedValue.offset? clock.offset with
    | none => return .localDateTime d t
    | some o => return .dateTime d t o

variable {m n : Moment} {cs : List Char} {raw : String} {d : Datatype}

theorem same_iff : m.Same n ↔ m.canonical = n.canonical := by
  constructor
  · rintro (_ | h | ⟨_, h⟩)
    · rfl
    · exact congrArg Moment.time (TimeFields.same_iff.mp h)
    · exact congrArg (Moment.dateTime _) (TimeFields.same_iff.mp h)
  · intro h
    cases m <;> cases n <;>
      simp only [canonical, reduceCtorEq, date.injEq, time.injEq, dateTime.injEq] at h
    · rw [h]
      exact .date _
    · exact .time (TimeFields.same_iff.mpr h)
    · rw [h.1]
      exact .dateTime _ (TimeFields.same_iff.mpr h.2)

theorem datatype_canonical (m : Moment) : m.canonical.datatype = m.datatype := by cases m <;> rfl

theorem Exists.canonical (h : m.Exists) : m.canonical.Exists := by
  cases m with
  | date => exact h
  | time => exact TimeFields.InBounds.canonical h
  | dateTime => exact ⟨h.1, h.2.canonical⟩

theorem value?_canonical (m : Moment) : m.canonical.value? = m.value? := by
  cases m with
  | date => rfl
  | time f => simp only [Moment.canonical, value?, f.offset?_canonical, f.toClockTime?_canonical]
  | dateTime d f =>
    simp only [Moment.canonical, value?, f.offset?_canonical, f.toClockTime?_canonical]

/-- A text of one datatype says one thing. -/
theorem Text.unique (hm : m.Text cs) (hn : n.Text cs) (hType : m.datatype = n.datatype) :
    m = n := by
  cases hm with
  | date hm =>
    cases hn with
    | date hn =>
      rw [← Temporal.date?_eq_some_iff] at hm hn
      rw [Option.some.inj (hm.symm.trans hn)]
    | _ => cases hType
  | time hm =>
    cases hn with
    | time hn =>
      rw [← Temporal.time?_eq_some_iff] at hm hn
      rw [Option.some.inj (hm.symm.trans hn)]
    | _ => cases hType
  | dateTime hDay hClock =>
    generalize hSplit : _ ++ 'T' :: _ = cs at hn
    cases hn with
    | dateTime hDay' hClock' =>
      have hm := Temporal.dateTime?_eq_some_iff.mpr ⟨_, _, hSplit.symm,
        Temporal.date?_eq_some_iff.mpr hDay, Temporal.time?_eq_some_iff.mpr hClock⟩
      have hn := Temporal.dateTime?_eq_some_iff.mpr ⟨_, _, rfl,
        Temporal.date?_eq_some_iff.mpr hDay', Temporal.time?_eq_some_iff.mpr hClock'⟩
      obtain ⟨rfl, rfl⟩ := Prod.mk.inj (Option.some.inj (hm.symm.trans hn))
      rfl
    | _ => cases hType

/-- The literals of a datatype that are accepted are the texts of what exists. -/
theorem check_eq_ok_iff (hd : d ∈ [Datatype.date, .time, .dateTime]) :
    Literal.check d raw = .ok () ↔ ∃ m : Moment, m.datatype = d ∧ m.Text raw.toList ∧ m.Exists := by
  rw [Literal.check_eq_ok_iff]
  simp only [List.mem_cons, List.not_mem_nil, or_false] at hd
  constructor
  · intro h
    rcases hd with rfl | rfl | rfl
    · obtain ⟨day, hDay, hExists⟩ := Literal.dateDefect?_eq_none_iff.mp h
      exact ⟨.date day, rfl, .date hDay, hExists⟩
    · obtain ⟨clock, hClock, hBounds⟩ := Literal.timeDefect?_eq_none_iff.mp h
      exact ⟨.time clock, rfl, .time hClock, hBounds⟩
    · obtain ⟨x, y, day, clock, hSplit, hDay, hClock, hExists⟩ :=
        Literal.dateTimeDefect?_eq_none_iff.mp h
      exact ⟨.dateTime day clock, rfl, hSplit ▸ .dateTime hDay hClock, hExists⟩
  · rintro ⟨m, rfl, hText, hExists⟩
    generalize hRaw : raw.toList = cs at hText
    cases hText with
    | date hDay => exact Literal.dateDefect?_eq_none_iff.mpr ⟨_, hRaw ▸ hDay, hExists⟩
    | time hClock => exact Literal.timeDefect?_eq_none_iff.mpr ⟨_, hRaw ▸ hClock, hExists⟩
    | dateTime hDay hClock =>
      exact Literal.dateTimeDefect?_eq_none_iff.mpr ⟨_, _, _, _, hRaw, hDay, hClock, hExists⟩

theorem Text.read? (h : m.Text raw.toList) : TypedValue.read? m.datatype raw = m.value? := by
  generalize hRaw : raw.toList = cs at h
  cases h with
  | date h =>
    change TypedValue.ofDate? raw.toList = _
    rw [TypedValue.ofDate?, hRaw, Temporal.date?_eq_some_iff.mpr h, value?]
    exact Option.map_eq_bind.symm
  | time h =>
    change TypedValue.ofTime? raw.toList = _
    rw [TypedValue.ofTime?, hRaw, Temporal.time?_eq_some_iff.mpr h]
    rfl
  | dateTime hDay h =>
    change TypedValue.ofDateTime? raw.toList = _
    rw [TypedValue.ofDateTime?, hRaw, Temporal.dateTime?_eq_some_iff.mpr ⟨_, _, rfl,
      Temporal.date?_eq_some_iff.mpr hDay, Temporal.time?_eq_some_iff.mpr h⟩]
    rfl

/-- What exists is written in its canonical form; the text of a date is the only one there is. -/
theorem Exists.exists_text (h : m.Exists) (hText : m.Text cs) :
    ∃ v j, m.value? = some v ∧ v.isText = false ∧ v.toJson = .string j ∧
      m.canonical.Text j.toList ∧ (m.datatype = .date → j.toList = cs) := by
  cases hText with
  | date hDay =>
    obtain ⟨d, hd⟩ := Option.isSome_iff_exists.mp h
    obtain rfl := hDay.eq_chars hd
    exact ⟨.date d, _, by rw [value?, hd, Option.map_some], rfl, rfl, by simpa using .date hDay,
      fun _ => String.toList_ofList⟩
  | @time cs clock hClock =>
    obtain ⟨t, o, ht, ho, hWritten⟩ := TimeFields.InBounds.exists_text h hClock
    refine ⟨.time t o, _, ?_, rfl, rfl, by simpa using .time hWritten, nofun⟩
    simp only [value?, ht, ho, Option.bind_eq_bind, Option.bind_some]
    rfl
  | dateTime hDay hClock =>
    obtain ⟨d, hd⟩ := Option.isSome_iff_exists.mp h.1
    obtain rfl := hDay.eq_chars hd
    obtain ⟨t, o, ht, ho, hWritten⟩ := h.2.exists_text hClock
    have hBoth := Text.dateTime hDay hWritten
    cases o with
    | none =>
      refine ⟨.localDateTime d t, _, ?_, rfl, rfl, by simpa [Moment.canonical] using hBoth, nofun⟩
      simp only [value?, hd, ht, ho, Option.bind_eq_bind, Option.bind_some]
      rfl
    | some o =>
      refine ⟨.dateTime d t o, _, ?_, rfl, rfl, by simpa [Moment.canonical] using hBoth, nofun⟩
      simp only [value?, hd, ht, ho, Option.bind_eq_bind, Option.bind_some]
      rfl

theorem Text.utc_inv {p : List Char} (h : m.Text (p ++ ['Z'])) (hType : m.datatype ≠ .date) :
    (∃ f, m = .time f ∧ Temporal.TimeText (p ++ ['Z']) f) ∨
      ∃ x q d f, m = .dateTime d f ∧ p = x ++ 'T' :: q ∧ Temporal.DateText x d ∧
        Temporal.TimeText (q ++ ['Z']) f := by
  generalize hText : p ++ ['Z'] = cs at h
  cases h with
  | date => exact absurd rfl hType
  | time hClock => exact .inl ⟨_, rfl, hClock⟩
  | dateTime hDay hClock =>
    rcases List.append_eq_append_iff.mp hText with ⟨r, -, hMark⟩ | ⟨r, rfl, hMark⟩
    · have hMember : 'T' ∈ ['Z'] := hMark ▸ List.mem_append_right r List.mem_cons_self
      exact absurd hMember (by decide)
    · cases r with
      | nil => cases hMark
      | cons c q =>
        obtain ⟨rfl, rfl⟩ := List.cons.inj hMark
        exact .inr ⟨_, q, _, _, rfl, rfl, hDay, hClock⟩

/-- A designator of universal time in the place of `Z` changes nothing that is said. -/
theorem Text.of_utc {p z : List Char} {g : OffsetField} (h : m.Text (p ++ ['Z']))
    (hType : m.datatype ≠ .date) (hz : Temporal.DesignatorText z g) (hZero : g ∈ OffsetField.zeros)
    (hExists : m.Exists) :
    ∃ n : Moment, n.datatype = m.datatype ∧ n.Text (p ++ z) ∧ n.Exists ∧
      n.canonical = m.canonical := by
  have hClock {q : List Char} {f : TimeFields} (h : Temporal.TimeText (q ++ ['Z']) f) :
      TimeFields.canonical { f with offset := some g } = f.canonical := by
    rw [TimeFields.canonical, TimeFields.canonical, h.of_utc.1, Option.map_some, Option.map_some,
      OffsetField.canonical_of_mem_zeros hZero]
    rfl
  have hBounds {f : TimeFields} (h : f.InBounds) :
      TimeFields.InBounds { f with offset := some g } := by
    refine ⟨h.hour_le, h.minute_le, h.second_le, ?_⟩
    rintro _ ⟨⟩
    exact OffsetField.inBounds_of_mem_zeros hZero
  rcases h.utc_inv hType with ⟨f, rfl, hText⟩ | ⟨x, q, d, f, rfl, rfl, hDay, hText⟩
  · exact ⟨.time { f with offset := some g }, rfl, .time (hText.of_utc.2 z g hz), hBounds hExists,
      congrArg Moment.time (hClock hText)⟩
  · refine ⟨.dateTime d { f with offset := some g }, rfl, ?_, ⟨hExists.1, hBounds hExists.2⟩,
      congrArg (Moment.dateTime d) (hClock hText)⟩
    rw [List.append_assoc]
    exact .dateTime hDay (hText.of_utc.2 z g hz)

end Moment

namespace TypedValue

variable {d : Datatype} {raw : String}

/-- The value of an accepted literal of a date or time is that of what the literal says. -/
theorem exists_moment (hd : d ∈ [Datatype.date, .time, .dateTime])
    (h : Literal.check d raw = .ok ()) :
    ∃ (m : Moment) (v : TypedValue) (j : String), m.datatype = d ∧ m.Text raw.toList ∧ m.Exists ∧
      m.value? = some v ∧ ofLiteral d raw = v ∧ v.isText = false ∧ v.toJson = .string j ∧
      m.canonical.Text j.toList ∧ (d = .date → j = raw) := by
  obtain ⟨m, rfl, hText, hExists⟩ := (Moment.check_eq_ok_iff hd).mp h
  obtain ⟨v, j, hValue, hKind, hJson, hWritten, hDate⟩ := hExists.exists_text hText
  refine ⟨m, v, j, rfl, hText, hExists, hValue, ?_, hKind, hJson, hWritten, ?_⟩
  · exact ofLiteral_of_read? (hText.read?.trans hValue)
  · exact fun hType => String.toList_inj.mp (hDate hType)

theorem ofLiteral_of_text {m : Moment} {v : TypedValue} (hText : m.Text raw.toList)
    (hValue : m.value? = some v) : ofLiteral m.datatype raw = v :=
  ofLiteral_of_read? (hText.read?.trans hValue)

theorem toJson_fixed (hd : d ∈ [Datatype.date, .time, .dateTime])
    (h : Literal.check d raw = .ok ()) :
    (ofLiteral d raw).isText = false ∧
      ∃ j, (ofLiteral d raw).toJson = .string j ∧ Literal.check d j = .ok () ∧
        ofLiteral d j = ofLiteral d raw ∧ (ofLiteral d j).toJson = .string j ∧
        (d = .date → j = raw) := by
  obtain ⟨m, v, j, rfl, -, hExists, hValue, hLiteral, hKind, hJson, hWritten, hDate⟩ :=
    exists_moment hd h
  have hAgain : ofLiteral m.datatype j = v := by
    rw [← m.datatype_canonical]
    exact ofLiteral_of_text hWritten (m.value?_canonical.trans hValue)
  have hCheck : Literal.check m.datatype j = .ok () :=
    (Moment.check_eq_ok_iff hd).mpr ⟨_, m.datatype_canonical, hWritten, hExists.canonical⟩
  rw [hLiteral]
  exact ⟨hKind, j, hJson, hCheck, hAgain, (congrArg toJson hAgain).trans hJson, hDate⟩

theorem toJson_eq_iff_same (hd : d ∈ [Datatype.date, .time, .dateTime]) {x y : String}
    (hx : Literal.check d x = .ok ()) (hy : Literal.check d y = .ok ()) :
    (ofLiteral d x).toJson = (ofLiteral d y).toJson ↔
      ∃ m n : Moment, m.datatype = d ∧ m.Text x.toList ∧ n.Text y.toList ∧ m.Same n := by
  obtain ⟨m, v, j, rfl, hText, -, hValue, hLiteral, -, hJson, hWritten, -⟩ := exists_moment hd hx
  obtain ⟨n, w, k, hType, hText', -, hValue', hLiteral', -, hJson', hWritten', -⟩ :=
    exists_moment hd hy
  rw [hLiteral, hLiteral', hJson, hJson']
  constructor
  · intro hSame
    obtain rfl := Json.string.inj hSame
    have hCanonical := hWritten.unique hWritten'
      (by rw [m.datatype_canonical, n.datatype_canonical, hType])
    exact ⟨m, n, rfl, hText, hText', Moment.same_iff.mpr hCanonical⟩
  · rintro ⟨m', n', hType', hm', hn', hSame⟩
    have hCanonical := Moment.same_iff.mp hSame
    have hTypes : n'.datatype = n.datatype := by
      rw [hType, ← hType', ← n'.datatype_canonical, ← hCanonical, m'.datatype_canonical]
    obtain rfl := hm'.unique hText hType'
    obtain rfl := hn'.unique hText' hTypes
    have hValues : some v = some w := by
      rw [← hValue, ← hValue', ← m'.value?_canonical, hCanonical, n'.value?_canonical]
    obtain rfl := Option.some.inj hValues
    exact hJson.symm.trans hJson'

theorem ofLiteral_universal {p z : String} (hd : d ∈ [Datatype.time, .dateTime])
    (hz : z ∈ ["+00:00", "-00:00"]) (h : Literal.check d (p ++ "Z") = .ok ()) :
    Literal.check d (p ++ z) = .ok () ∧ ofLiteral d (p ++ z) = ofLiteral d (p ++ "Z") := by
  have hTemporal : d ∈ [Datatype.date, .time, .dateTime] := List.mem_cons_of_mem _ hd
  obtain ⟨m, v, -, rfl, hText, hExists, hValue, hLiteral, -⟩ := exists_moment hTemporal h
  have hType : m.datatype ≠ .date := by
    intro hDate
    rw [hDate] at hd
    exact absurd hd (by decide)
  obtain ⟨g, hDesignator, hZero⟩ :
      ∃ g, Temporal.DesignatorText z.toList g ∧ g ∈ OffsetField.zeros := by
    have hDigits : Temporal.TwoDigits ['0', '0'] 0 := ⟨rfl, rfl, rfl⟩
    simp only [List.mem_cons, List.not_mem_nil, or_false] at hz
    rcases hz with rfl | rfl
    · exact ⟨_, .ahead hDigits hDigits, by decide⟩
    · exact ⟨_, .behind hDigits hDigits, by decide⟩
  rw [String.toList_append] at hText
  obtain ⟨n, hSameType, hWritten, hExists', hCanonical⟩ :=
    hText.of_utc hType hDesignator hZero hExists
  rw [← String.toList_append] at hWritten
  refine ⟨(Moment.check_eq_ok_iff hTemporal).mpr ⟨n, hSameType, hWritten, hExists'⟩, ?_⟩
  rw [hLiteral, ← hSameType]
  refine ofLiteral_of_text hWritten ?_
  rw [← n.value?_canonical, hCanonical, m.value?_canonical, hValue]

/-- The text of a date or time is a fixed point, and tells apart exactly what says different things. -/
theorem toJson_canonical :
    (∀ d ∈ [Datatype.date, .time, .dateTime], ∀ raw, Literal.check d raw = .ok () →
      (ofLiteral d raw).isText = false ∧
        ∃ j, (ofLiteral d raw).toJson = .string j ∧ Literal.check d j = .ok () ∧
          ofLiteral d j = ofLiteral d raw ∧ (ofLiteral d j).toJson = .string j ∧
          (d = .date → j = raw)) ∧
    (∀ d ∈ [Datatype.date, .time, .dateTime], ∀ x y,
      Literal.check d x = .ok () → Literal.check d y = .ok () →
        ((ofLiteral d x).toJson = (ofLiteral d y).toJson ↔
          ∃ m n : Moment, m.datatype = d ∧ m.Text x.toList ∧ n.Text y.toList ∧ m.Same n)) ∧
    ∀ d ∈ [Datatype.time, .dateTime], ∀ p z, z ∈ ["+00:00", "-00:00"] →
      Literal.check d (p ++ "Z") = .ok () →
        Literal.check d (p ++ z) = .ok () ∧ ofLiteral d (p ++ z) = ofLiteral d (p ++ "Z") := by
  refine ⟨?_, ?_, ?_⟩
  · intro d hd raw h
    exact toJson_fixed hd h
  · intro d hd x y hx hy
    exact toJson_eq_iff_same hd hx hy
  · intro d hd p z hz h
    exact ofLiteral_universal hd hz h

/-- Half past ten in universal time, without a second and with one in three places. -/
theorem toJson_half_past_ten :
    Literal.check .time ("10:30" ++ "Z") = .ok () ∧
      Literal.check .time "10:30:00.000-00:00" = .ok () ∧
      (ofLiteral .time ("10:30" ++ "Z")).toJson = (ofLiteral .time "10:30:00.000-00:00").toJson ∧
      ofLiteral .time ("10:30" ++ "+00:00") = ofLiteral .time ("10:30" ++ "Z") ∧
      ∃ j, (ofLiteral .time ("10:30" ++ "Z")).toJson = .string j ∧
        (ofLiteral .time j).toJson = .string j := by
  have hShort : Literal.check .time ("10:30" ++ "Z") = .ok () := by decide
  have hLong : Literal.check .time "10:30:00.000-00:00" = .ok () := by decide
  have hShortText : Temporal.TimeText ("10:30" ++ "Z").toList ⟨10, 30, none, 0, some .utc⟩ :=
    Temporal.time?_eq_some_iff.mp (by decide)
  have hLongText :
      Temporal.TimeText "10:30:00.000-00:00".toList ⟨10, 30, some 0, 0, some (.fixed true 0 0)⟩ :=
    Temporal.time?_eq_some_iff.mp (by decide)
  have hSame : Moment.Same (.time ⟨10, 30, none, 0, some .utc⟩)
      (.time ⟨10, 30, some 0, 0, some (.fixed true 0 0)⟩) :=
    .time ⟨rfl, rfl, rfl, rfl, .some (.zero (by decide) (by decide))⟩
  obtain ⟨-, j, hWritten, -, -, hAgain, -⟩ := toJson_canonical.1 .time (by decide) _ hShort
  exact ⟨hShort, hLong,
    (toJson_canonical.2.1 .time (by decide) _ _ hShort hLong).mpr
      ⟨_, _, rfl, .time hShortText, .time hLongText, hSame⟩,
    (toJson_canonical.2.2 .time (by decide) "10:30" "+00:00" (by decide) hShort).2, j, hWritten,
    hAgain⟩

end TypedValue

end AssetShell
