/-!
# Instants

An instant is a day, a second of the day and a fraction in nanoseconds, all in universal time. A
fraction of a whole second or more stands for a leap second. Days are counted from 1 January 1970
in the Gregorian calendar extended to all years.
-/

namespace FolderCommands

/-- A date of the calendar. -/
structure Date where
  year : Int
  month : Nat
  day : Nat
deriving DecidableEq, Repr

namespace Date

def isLeapYear (year : Int) : Bool :=
  year % 4 = 0 && (year % 100 ≠ 0 || year % 400 = 0)

/-- The length of a month. -/
def monthLength (year : Int) (month : Nat) : Nat :=
  if month = 2 then (if isLeapYear year then 29 else 28)
  else if month = 4 || month = 6 || month = 9 || month = 11 then 30
  else 31

/-- Whether a date is in the calendar and in the years that are supported. -/
def isValid (d : Date) : Bool :=
  -262143 ≤ d.year && d.year ≤ 262142 && 1 ≤ d.month && d.month ≤ 12 && 1 ≤ d.day &&
    d.day ≤ monthLength d.year d.month

/-- The number of days since 1 January 1970. The year is taken to start in March, so that the
leap day is its last day, and years are counted in eras of 400. -/
def toDays (d : Date) : Int :=
  let year := if d.month ≤ 2 then d.year - 1 else d.year
  let era := year / 400
  let yearOfEra := year % 400
  let month : Int := if d.month ≤ 2 then d.month + 9 else d.month - 3
  let dayOfYear := (153 * month + 2) / 5 + d.day - 1
  let dayOfEra := yearOfEra * 365 + yearOfEra / 4 - yearOfEra / 100 + dayOfYear
  era * 146097 + dayOfEra - 719468

/-- The date of a number of days since 1 January 1970. -/
def ofDays (days : Int) : Date :=
  let z := days + 719468
  let era := z / 146097
  let dayOfEra := z % 146097
  let yearOfEra := (dayOfEra - dayOfEra / 1460 + dayOfEra / 36524 - dayOfEra / 146096) / 365
  let dayOfYear := dayOfEra - (365 * yearOfEra + yearOfEra / 4 - yearOfEra / 100)
  let month := (5 * dayOfYear + 2) / 153
  let day := dayOfYear - (153 * month + 2) / 5 + 1
  let realMonth := if month < 10 then month + 3 else month - 9
  let year := yearOfEra + era * 400
  ⟨if realMonth ≤ 2 then year + 1 else year, realMonth.toNat, day.toNat⟩

end Date

/-- A point in time. -/
structure Instant where
  /-- Days since 1 January 1970. -/
  days : Int
  /-- The second of the day. -/
  second : Nat
  /-- Nanoseconds into the second; a leap second has a whole second more. -/
  nanos : Nat
deriving DecidableEq, Repr

namespace Instant

/-- The instant that is a number of nanoseconds after the start of 1970. -/
def ofNanoseconds (n : Int) : Instant :=
  let seconds := n / 1000000000
  ⟨seconds / 86400, (seconds % 86400).toNat, (n % 1000000000).toNat⟩

/-- Whole seconds since the start of 1970. -/
def seconds (t : Instant) : Int :=
  t.days * 86400 + t.second

/-- The nanoseconds from `b` to `a`. A leap second counts if it lies between them. -/
def since (a b : Instant) : Int :=
  let leap : Int :=
    if b.second < a.second then (if 1000000000 ≤ b.nanos then 1 else 0)
    else if a.second < b.second then (if 1000000000 ≤ a.nanos then -1 else 0)
    else 0
  (a.seconds - b.seconds + leap) * 1000000000 + (a.nanos : Int) - b.nanos

end Instant

end FolderCommands
