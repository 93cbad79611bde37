import AssetShell.Literal.Calendar
import AssetShell.Number.Integer

/-!
# Written dates and times

The fields of `YYYY-MM-DD`, of `HH:MM[:SS[.fff]][Z|±HH:MM]`, and of the two joined by a `T`, as they
are written. Whether the fields are in bounds is asked afterwards.
-/

namespace AssetShell

structure DateFields where
  year : Nat
  month : Nat
  day : Nat
  deriving DecidableEq, Repr

inductive OffsetField
  | utc
  | fixed (negative : Bool) (hours minutes : Nat)
  deriving DecidableEq, Repr

structure TimeFields where
  hour : Nat
  minute : Nat
  second : Option Nat
  nanos : Nat
  offset : Option OffsetField
  deriving DecidableEq, Repr

inductive ClockField
  | hour
  | minute
  | second
  | offsetHour
  | offsetMinute
  deriving DecidableEq, Repr

namespace ClockField

def name : ClockField → String
  | .hour => "hour"
  | .minute => "minute"
  | .second => "second"
  | .offsetHour => "offset hour"
  | .offsetMinute => "offset minute"

def greatest : ClockField → Nat
  | .hour => 23
  | .minute => 59
  | .second => 59
  | .offsetHour => 14
  | .offsetMinute => 59

def bounds (f : ClockField) : String := s!"within 00..{f.greatest}"

end ClockField

namespace Temporal

def twoDigits? : List Char → Option (Nat × List Char)
  | a :: b :: r => if a.isDigit && b.isDigit then some (digitsValue [a, b], r) else none
  | _ => none

def expect? (c : Char) : List Char → Option (List Char)
  | [] => none
  | d :: r => if d = c then some r else none

def dateThen? (cs : List Char) : Option (DateFields × List Char) := do
  let (century, r) ← twoDigits? cs
  let (year, r) ← twoDigits? r
  let r ← expect? '-' r
  let (month, r) ← twoDigits? r
  let r ← expect? '-' r
  let (day, r) ← twoDigits? r
  return (⟨100 * century + year, month, day⟩, r)

/-- Nanoseconds in a fraction of one to nine digits. -/
def nanos? (digits : List Char) : Option Nat :=
  if 1 ≤ digits.length ∧ digits.length ≤ 9 then
    some (digitsValue digits * Nat.pow 10 (9 - digits.length))
  else none

def fractionThen? : List Char → Option (Nat × List Char)
  | '.' :: r =>
    let (digits, r) := r.span Char.isDigit
    (nanos? digits).map (·, r)
  | r => some (0, r)

/-- The second with its fraction, which are written only after a colon. -/
def secondThen? : List Char → Option ((Option Nat × Nat) × List Char)
  | ':' :: r => do
    let (second, r) ← twoDigits? r
    let (nanos, r) ← fractionThen? r
    return ((some second, nanos), r)
  | r => some ((none, 0), r)

def signedOffset? (negative : Bool) (cs : List Char) : Option OffsetField := do
  let (hours, r) ← twoDigits? cs
  let r ← expect? ':' r
  let (minutes, r) ← twoDigits? r
  if r.isEmpty then some (.fixed negative hours minutes) else none

def offset? : List Char → Option (Option OffsetField)
  | [] => some none
  | ['Z'] => some (some .utc)
  | '+' :: r => (signedOffset? false r).map some
  | '-' :: r => (signedOffset? true r).map some
  | _ => none

def date? (cs : List Char) : Option DateFields := do
  let (date, r) ← dateThen? cs
  if r.isEmpty then some date else none

def time? (cs : List Char) : Option TimeFields := do
  let (hour, r) ← twoDigits? cs
  let r ← expect? ':' r
  let (minute, r) ← twoDigits? r
  let ((second, nanos), r) ← secondThen? r
  let offset ← offset? r
  return ⟨hour, minute, second, nanos, offset⟩

def dateTime? (cs : List Char) : Option (DateFields × TimeFields) := do
  let (date, r) ← dateThen? cs
  let r ← expect? 'T' r
  let time ← time? r
  return (date, time)

end Temporal

def DateFields.toDate? (f : DateFields) : Option Date := Date.ofFields? f.year f.month f.day

namespace OffsetField

def seconds : OffsetField → Int
  | .utc => 0
  | .fixed negative hours minutes =>
    let ahead : Int := hours * 3600 + minutes * 60
    if negative then -ahead else ahead

def toOffset? (f : OffsetField) : Option Offset := Offset.ofSeconds? f.seconds

def outOfBounds? : OffsetField → Option ClockField
  | .utc => none
  | .fixed _ hours minutes =>
    if ClockField.offsetHour.greatest < hours then some .offsetHour
    else if ClockField.offsetMinute.greatest < minutes then some .offsetMinute
    else none

end OffsetField

namespace TimeFields

/-- The first field that is too large: hour, minute, second, then those of the offset. -/
def outOfBounds? (f : TimeFields) : Option ClockField :=
  if ClockField.hour.greatest < f.hour then some .hour
  else if ClockField.minute.greatest < f.minute then some .minute
  else if f.second.any (ClockField.second.greatest < ·) then some .second
  else f.offset.bind OffsetField.outOfBounds?

/-- A second that is not written is the full minute. -/
def toClockTime? (f : TimeFields) : Option ClockTime :=
  ClockTime.ofFields? f.hour f.minute (f.second.getD 0) f.nanos

end TimeFields

end AssetShell
