/-!
# Calendar dates, clock times and offsets

Days of the proleptic Gregorian calendar from year 1 on, times of a day of 24 hours to the
nanosecond, and offsets from universal time of less than a day. A value of these types exists only
within its bounds.
-/

namespace AssetShell

def isLeapYear (year : Nat) : Bool := year % 4 = 0 && year % 100 ≠ 0 || year % 400 = 0

def daysInMonth (year month : Nat) : Nat :=
  match month with
  | 2 => if isLeapYear year then 29 else 28
  | 4 | 6 | 9 | 11 => 30
  | _ => 31

structure Date where
  year : Nat
  month : Nat
  day : Nat
  one_le_year : 1 ≤ year
  one_le_month : 1 ≤ month
  month_le : month ≤ 12
  one_le_day : 1 ≤ day
  day_le : day ≤ daysInMonth year month
  deriving DecidableEq, Repr

def Date.ofFields? (year month day : Nat) : Option Date :=
  if h : 1 ≤ year ∧ 1 ≤ month ∧ month ≤ 12 ∧ 1 ≤ day ∧ day ≤ daysInMonth year month then
    some ⟨year, month, day, h.1, h.2.1, h.2.2.1, h.2.2.2.1, h.2.2.2.2⟩
  else none

structure ClockTime where
  hour : Nat
  minute : Nat
  second : Nat
  nanos : Nat
  hour_lt : hour < 24
  minute_lt : minute < 60
  second_lt : second < 60
  nanos_lt : nanos < 1000000000
  deriving DecidableEq, Repr

def ClockTime.ofFields? (hour minute second nanos : Nat) : Option ClockTime :=
  if h : hour < 24 ∧ minute < 60 ∧ second < 60 ∧ nanos < 1000000000 then
    some ⟨hour, minute, second, nanos, h.1, h.2.1, h.2.2.1, h.2.2.2⟩
  else none

/-- Seconds that the local time is ahead of universal time. -/
structure Offset where
  seconds : Int
  neg_day_lt : -86400 < seconds
  lt_day : seconds < 86400
  deriving DecidableEq, Repr

def Offset.ofSeconds? (seconds : Int) : Option Offset :=
  if h : -86400 < seconds ∧ seconds < 86400 then some ⟨seconds, h.1, h.2⟩ else none

def Offset.utc : Offset := ⟨0, by decide, by decide⟩

/-- The decimal digits of `n`, filled with zeros on the left to at least `width` places. -/
def paddedDigits (width n : Nat) : List Char :=
  let ds := Nat.toDigits 10 n
  List.replicate (width - ds.length) '0' ++ ds

def Date.chars (d : Date) : List Char :=
  paddedDigits 4 d.year ++ '-' :: paddedDigits 2 d.month ++ '-' :: paddedDigits 2 d.day

/-- A fraction of a second in the fewest of 0, 3, 6 or 9 places that show it exactly. -/
def fractionChars (nanos : Nat) : List Char :=
  if nanos = 0 then []
  else if nanos % 1000000 = 0 then '.' :: paddedDigits 3 (nanos / 1000000)
  else if nanos % 1000 = 0 then '.' :: paddedDigits 6 (nanos / 1000)
  else '.' :: paddedDigits 9 nanos

def ClockTime.chars (t : ClockTime) : List Char :=
  paddedDigits 2 t.hour ++ ':' :: paddedDigits 2 t.minute ++ ':' :: paddedDigits 2 t.second
    ++ fractionChars t.nanos

/-- An offset of no seconds is written with a plus. -/
def Offset.chars (o : Offset) : List Char :=
  let minutes := o.seconds.natAbs / 60
  (if o.seconds < 0 then '-' else '+') :: paddedDigits 2 (minutes / 60)
    ++ ':' :: paddedDigits 2 (minutes % 60)

end AssetShell
