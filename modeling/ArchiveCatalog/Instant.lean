namespace ArchiveCatalog

/-! # Instants

An instant is a count of whole seconds since the start of 1970 and the nanoseconds past
it. Dates follow the Gregorian calendar in both directions, with a year 0. A leap second
is the second before it with a thousand million nanoseconds or more.
-/

/-- A point in time. -/
structure Instant where
  seconds : Int
  nanos : Nat
  deriving DecidableEq, Repr, Inhabited

/-- A day of the Gregorian calendar. -/
structure CalendarDate where
  year : Int
  month : Nat
  day : Nat
  deriving DecidableEq, Repr

namespace CalendarDate

/-- The year has a 29th of February. -/
def isLeapYear (year : Int) : Bool :=
  year % 4 == 0 && (year % 100 != 0 || year % 400 == 0)

/-- The number of days of a month. -/
def daysInMonth (year : Int) (month : Nat) : Nat :=
  if month = 2 then (if isLeapYear year then 29 else 28)
  else if month = 4 ∨ month = 6 ∨ month = 9 ∨ month = 11 then 30 else 31

/-- The first and the last year a date may have. -/
def firstYear : Int := -262143

/-- The last year a date may have. -/
def lastYear : Int := 262142

/-- The date exists and its year is in range. -/
def isValid (d : CalendarDate) : Bool :=
  firstYear ≤ d.year && d.year ≤ lastYear && 1 ≤ d.month && d.month ≤ 12 &&
    1 ≤ d.day && d.day ≤ daysInMonth d.year d.month

/-- Days since the start of 1970. Years are counted from March, so that the leap day ends
a year. -/
def toDays (d : CalendarDate) : Int :=
  let year := if d.month ≤ 2 then d.year - 1 else d.year
  let era := year / 400
  let yearOfEra := year % 400
  let dayOfYear : Int := ((153 * ((d.month + 9) % 12) + 2) / 5 + d.day - 1 : Nat)
  let dayOfEra := yearOfEra * 365 + yearOfEra / 4 - yearOfEra / 100 + dayOfYear
  era * 146097 + dayOfEra - 719468

/-- The date a number of days after the start of 1970. -/
def ofDays (days : Int) : CalendarDate :=
  let shifted := days + 719468
  let era := shifted / 146097
  let dayOfEra := (shifted % 146097).toNat
  let yearOfEra := (dayOfEra - dayOfEra / 1460 + dayOfEra / 36524 - dayOfEra / 146096) / 365
  let dayOfYear := dayOfEra - (365 * yearOfEra + yearOfEra / 4 - yearOfEra / 100)
  let shiftedMonth := (5 * dayOfYear + 2) / 153
  let month := if shiftedMonth < 10 then shiftedMonth + 3 else shiftedMonth - 9
  let year := era * 400 + yearOfEra
  { year := if month ≤ 2 then year + 1 else year
    month
    day := dayOfYear - (153 * shiftedMonth + 2) / 5 + 1 }

end CalendarDate

namespace Instant

/-- The number of seconds of a day. -/
def secondsPerDay : Int := 86400

/-- The day of an instant lies in the calendar's range. -/
def inRange (t : Instant) : Bool :=
  let year := (CalendarDate.ofDays (t.seconds / secondsPerDay)).year
  CalendarDate.firstYear ≤ year && year ≤ CalendarDate.lastYear

/-- Milliseconds since the start of 1970. -/
def toMillis (t : Instant) : Int := t.seconds * 1000 + (t.nanos / 1000000 : Nat)

/-- The instant so many milliseconds after the start of 1970, within the calendar. -/
def ofMillis? (millis : Int) : Option Instant :=
  let t : Instant := ⟨millis / 1000, (millis % 1000).toNat * 1000000⟩
  if t.inRange then some t else none

end Instant

end ArchiveCatalog
