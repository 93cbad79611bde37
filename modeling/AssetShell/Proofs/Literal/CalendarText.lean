import AssetShell.Literal.Calendar
import AssetShell.Proofs.Literal.TemporalGrammar

/-!
# Texts of dates, clock times and offsets

What is written for a date, a clock time or an offset has the form of a date or time, and reading it
gives the same numbers back.
-/

namespace AssetShell

/-! ## Digits in a given number of places -/

theorem digitsValue_append (cs ds : List Char) :
    digitsValue (cs ++ ds) = 10 ^ ds.length * digitsValue cs + digitsValue ds := by
  simp only [digitsValue_eq_ofDigits, List.reverse_append, List.map_append, Nat.ofDigits_append,
    List.length_map, List.length_reverse]
  exact Nat.add_comm _ _

/-- Digits of one length are told apart by the number they denote. -/
theorem eq_of_digitsValue_eq {x y : List Char} (hx : ∀ c ∈ x, c.isDigit = true)
    (hy : ∀ c ∈ y, c.isDigit = true) (hLength : x.length = y.length)
    (hValue : digitsValue x = digitsValue y) : x = y := by
  induction x generalizing y with
  | nil => exact (List.length_eq_zero_iff.mp hLength.symm).symm
  | cons a r ih =>
    obtain ⟨b, t, rfl⟩ := List.exists_cons_of_length_eq_add_one hLength.symm
    obtain ⟨ha, hr⟩ := List.forall_mem_cons.mp hx
    obtain ⟨hb, ht⟩ := List.forall_mem_cons.mp hy
    have hRest : r.length = t.length := Nat.succ.inj hLength
    have hSplit : ∀ c cs, digitsValue (c :: cs) = 10 ^ cs.length * digitValue c + digitsValue cs :=
      fun c cs => by simpa [digitsValue, appendDigit] using digitsValue_append [c] cs
    -- The leading digit is the quotient by the power that the places after it can reach.
    have hLead : digitValue a = digitValue b := by
      have hQuotient := congrArg (· / 10 ^ r.length) hValue
      simpa [hSplit, hRest, Nat.mul_add_div, Nat.div_eq_of_lt (digitsValue_lt ht),
        Nat.div_eq_of_lt (hRest ▸ digitsValue_lt hr)] using hQuotient
    have hValues : digitsValue r = digitsValue t := by
      rw [hSplit, hSplit, hRest, hLead] at hValue
      exact Nat.add_left_cancel hValue
    have hA := toNat_of_isDigit ha
    have hB := toNat_of_isDigit hb
    have hCodes : a.toNat - 48 = b.toNat - 48 := hLead
    rw [Char.toNat_inj.mp (show a.toNat = b.toNat by omega), ih hr ht hRest hValues]

variable {width n : Nat}

theorem length_paddedDigits (hWidth : 0 < width) (h : n < 10 ^ width) :
    (paddedDigits width n).length = width := by
  have hLength : (Nat.toDigits 10 n).length ≤ width :=
    (Nat.length_toDigits_le_iff (by decide) hWidth).mpr h
  rw [paddedDigits, List.length_append, List.length_replicate, Nat.sub_add_cancel hLength]

theorem isDigit_of_mem_paddedDigits {c : Char} (h : c ∈ paddedDigits width n) :
    c.isDigit = true := by
  rcases List.mem_append.mp h with hZero | hDigit
  · rw [List.eq_of_mem_replicate hZero]
    rfl
  · exact isDigit_of_mem_toDigits hDigit

theorem isDigits_paddedDigits (hWidth : 0 < width) (h : n < 10 ^ width) :
    isDigits (paddedDigits width n) = true := by
  rw [isDigits_iff, ← List.length_pos_iff, length_paddedDigits hWidth h]
  exact ⟨hWidth, fun c hc => isDigit_of_mem_paddedDigits hc⟩

theorem digitsValue_zeros (k : Nat) : digitsValue (List.replicate k '0') = 0 :=
  (digitsValue_eq_zero_iff fun c hc => by rw [List.eq_of_mem_replicate hc]; rfl).mpr
    fun c hc => List.eq_of_mem_replicate hc

theorem digitsValue_paddedDigits (width n : Nat) : digitsValue (paddedDigits width n) = n := by
  rw [paddedDigits, digitsValue_append, digitsValue_zeros, Nat.mul_zero, Nat.zero_add,
    digitsValue_toDigits]

namespace Temporal

/-! ## Dates -/

theorem twoDigits_paddedDigits (h : n < 100) : TwoDigits (paddedDigits 2 n) n :=
  ⟨length_paddedDigits (by decide) h, isDigits_paddedDigits (by decide) h,
    (digitsValue_paddedDigits 2 n).symm⟩

namespace TwoDigits

variable {cs : List Char}

theorem lt (h : TwoDigits cs n) : n < 100 := by
  obtain ⟨hLength, hDigits, rfl⟩ := h
  have hValue := digitsValue_lt (isDigits_iff.mp hDigits).2
  rwa [hLength] at hValue

theorem eq_paddedDigits (h : TwoDigits cs n) : cs = paddedDigits 2 n :=
  eq_of_digitsValue_eq (isDigits_iff.mp h.2.1).2 (fun _ => isDigit_of_mem_paddedDigits)
    (h.1.trans (length_paddedDigits (by decide) h.lt).symm)
    (h.2.2.symm.trans (digitsValue_paddedDigits 2 n).symm)

end TwoDigits

theorem paddedDigits_four {century year : Nat} (hCentury : century < 100) (hYear : year < 100) :
    paddedDigits 4 (100 * century + year) = paddedDigits 2 century ++ paddedDigits 2 year := by
  have hTwo {k : Nat} (h : k < 100) : (paddedDigits 2 k).length = 2 :=
    length_paddedDigits (by decide) h
  have hFour : 100 * century + year < 10 ^ 4 := by omega
  refine eq_of_digitsValue_eq (fun _ => isDigit_of_mem_paddedDigits)
    (List.forall_mem_append.mpr
      ⟨fun _ => isDigit_of_mem_paddedDigits, fun _ => isDigit_of_mem_paddedDigits⟩) ?_ ?_
  · rw [length_paddedDigits (by decide) hFour, List.length_append, hTwo hCentury, hTwo hYear]
  · simp only [digitsValue_append, digitsValue_paddedDigits, hTwo hYear]
    rfl

theorem fields_of_toDate? {f : DateFields} {d : Date} (h : f.toDate? = some d) :
    f = ⟨d.year, d.month, d.day⟩ := by
  rw [DateFields.toDate?, Date.ofFields?] at h
  split at h
  · cases h
    rfl
  · cases h

/-- A date has one text. -/
theorem DateText.eq_chars {cs : List Char} {f : DateFields} {d : Date} (h : DateText cs f)
    (hDate : f.toDate? = some d) : cs = d.chars := by
  obtain ⟨hCentury, hYear, hMonth, hDay⟩ := h
  obtain ⟨hY, hM, hD⟩ := DateFields.mk.inj (fields_of_toDate? hDate)
  rw [Date.chars, ← hY, ← hM, ← hD, paddedDigits_four hCentury.lt hYear.lt,
    ← hCentury.eq_paddedDigits, ← hYear.eq_paddedDigits, ← hMonth.eq_paddedDigits,
    ← hDay.eq_paddedDigits]

/-! ## Clock times and offsets -/

/-- A fraction in `places` digits whose further digits would be zeros. -/
theorem fractionText_places {places nanos : Nat} (hPlaces : 0 < places ∧ places ≤ 9)
    (hNanos : nanos < 10 ^ 9) (hZeros : nanos % 10 ^ (9 - places) = 0) :
    FractionText ('.' :: paddedDigits places (nanos / 10 ^ (9 - places))) nanos := by
  have hBound : nanos / 10 ^ (9 - places) < 10 ^ places := by
    rw [Nat.div_lt_iff_lt_mul (Nat.pow_pos (by decide)), ← Nat.pow_add,
      Nat.add_sub_cancel' hPlaces.2]
    exact hNanos
  have hLength := length_paddedDigits hPlaces.1 hBound
  have hText := FractionText.written (isDigits_paddedDigits hPlaces.1 hBound)
    (hLength.le.trans hPlaces.2)
  rwa [hLength, digitsValue_paddedDigits, Nat.div_mul_cancel (Nat.dvd_of_mod_eq_zero hZeros)] at hText

theorem fractionText_chars {nanos : Nat} (h : nanos < 10 ^ 9) :
    FractionText (fractionChars nanos) nanos := by
  rw [fractionChars]
  split
  · rename_i hZero
    rw [hZero]
    exact .absent
  split
  · rename_i hMilli
    exact fractionText_places (by decide) h hMilli
  split
  · rename_i hMicro
    exact fractionText_places (by decide) h hMicro
  · have hText := @fractionText_places 9 nanos (by decide) h (Nat.mod_one nanos)
    rwa [Nat.sub_self, Nat.pow_zero, Nat.div_one] at hText

end Temporal

/-- The offset as it is written: its sign, hours and minutes. -/
def Offset.field (o : Offset) : OffsetField :=
  .fixed (o.seconds < 0) (o.seconds.natAbs / 60 / 60) (o.seconds.natAbs / 60 % 60)

namespace Temporal

theorem designatorText_chars (o : Offset) : DesignatorText o.chars o.field := by
  have hLow := o.neg_day_lt
  have hHigh := o.lt_day
  have hHours : o.seconds.natAbs / 60 / 60 < 100 := by omega
  have hMinutes : o.seconds.natAbs / 60 % 60 < 100 := by omega
  rw [Offset.chars, Offset.field]
  by_cases hBehind : o.seconds < 0
  · rw [if_pos hBehind, decide_eq_true hBehind]
    exact .behind (twoDigits_paddedDigits hHours) (twoDigits_paddedDigits hMinutes)
  · rw [if_neg hBehind, decide_eq_false hBehind]
    exact .ahead (twoDigits_paddedDigits hHours) (twoDigits_paddedDigits hMinutes)

theorem offsetText_chars (o : Option Offset) :
    OffsetText ((o.map Offset.chars).getD []) (o.map Offset.field) := by
  cases o with
  | none => exact .absent
  | some o => exact .written (designatorText_chars o)

theorem timeText_chars (t : ClockTime) (o : Option Offset) :
    TimeText (t.chars ++ (o.map Offset.chars).getD [])
      ⟨t.hour, t.minute, some t.second, t.nanos, o.map Offset.field⟩ := by
  have hHour := twoDigits_paddedDigits (t.hour_lt.trans (by decide))
  have hMinute := twoDigits_paddedDigits (t.minute_lt.trans (by decide))
  have hSecond := twoDigits_paddedDigits (t.second_lt.trans (by decide))
  have hText := TimeText.mk hHour hMinute (.written hSecond (fractionText_chars t.nanos_lt))
    (offsetText_chars o)
  simpa [ClockTime.chars] using hText

end Temporal

end AssetShell
