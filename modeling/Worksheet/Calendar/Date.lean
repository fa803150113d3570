import Worksheet.Text.Basic

/-!
# Calendar dates

Dates of the proleptic Gregorian calendar, over a span of years wide enough for
every date a sheet can hold. Days are counted from the first of March of the
year zero: a year that starts in March ends with its leap day, so that the
months before it have fixed lengths and a cycle of four hundred years splits
into centuries, four-year groups and years, each but the last of its kind the
same number of days.
-/

namespace Worksheet

/-- Whether a year has a 29th of February. -/
def isLeapYear (year : Int) : Bool :=
  year % 4 == 0 && (year % 100 != 0 || year % 400 == 0)

/-- The number of days of a month, counted from 1. -/
def monthLength (year : Int) (month : Nat) : Nat :=
  if month = 2 then if isLeapYear year then 29 else 28
  else if month = 4 ∨ month = 6 ∨ month = 9 ∨ month = 11 then 30
  else 31

/-- The first year that has dates. -/
def firstYear : Int := -262143

/-- The last year that has dates. -/
def lastYear : Int := 262142

/-- Whether year, month and day make up a date. -/
def isDate (year : Int) (month day : Nat) : Bool :=
  firstYear ≤ year && year ≤ lastYear && 1 ≤ month && month ≤ 12 && 1 ≤ day
    && day ≤ monthLength year month

/-- A date of the Gregorian calendar. -/
structure Date where
  /-- The year; the year before 1 is 0. -/
  year : Int
  /-- The month, from 1. -/
  month : Nat
  /-- The day of the month, from 1. -/
  day : Nat
  /-- The calendar has this date. -/
  valid : isDate year month day = true
  deriving DecidableEq

namespace Date

/-- The date with a year, a month and a day, when the calendar has it. -/
def ofParts? (year : Int) (month day : Nat) : Option Date :=
  if h : isDate year month day = true then some ⟨year, month, day, h⟩ else none

/-- The number of the first day of a year that starts in March, which
`ofDayNumber?` takes apart again. -/
def yearStart (year : Int) : Int :=
  365 * year + year / 4 - year / 100 + year / 400

/-- The number of the first day of a month in a year that starts in March, March
being 0. -/
def monthStart (month : Nat) : Nat :=
  (153 * month + 2) / 5

/-- **The day count** from the first of March of the year zero: the days before
the year (`yearStart`), before the month (`monthStart`), and before the day. -/
def dayNumber (date : Date) : Int :=
  let shifted : Int × Nat :=
    if date.month ≤ 2 then (date.year - 1, date.month + 9) else (date.year, date.month - 3)
  yearStart shifted.1 + (monthStart shifted.2 + date.day - 1 : Nat)

/-- **The date with a day count**, when the calendar reaches it. The count is
divided into cycles of four hundred years, centuries, groups of four years and
years; what is left is a day of a year that starts in March. -/
def ofDayNumber? (number : Int) : Option Date :=
  let cycle := number / 146097
  let inCycle := (number % 146097).toNat
  let century := min (inCycle / 36524) 3
  let inCentury := inCycle - century * 36524
  let group := inCentury / 1461
  let inGroup := inCentury - group * 1461
  let yearInGroup := min (inGroup / 365) 3
  let inYear := inGroup - yearInGroup * 365
  let year : Int := cycle * 400 + (century * 100 + group * 4 + yearInGroup : Nat)
  let month := (5 * inYear + 2) / 153
  let day := inYear - monthStart month + 1
  if month < 10 then ofParts? year (month + 3) day else ofParts? (year + 1) (month - 9) day

/-- The date a number of days away: through `dayNumber` and back, so nothing
when the calendar does not reach it. -/
def addDays? (date : Date) (days : Int) : Option Date :=
  ofDayNumber? (date.dayNumber + days)

/-- The day of the week, Monday being 0. -/
def weekday (date : Date) : Nat :=
  ((date.dayNumber + 2) % 7).toNat

/-- Whether a date is not before another. -/
def notBefore (date other : Date) : Bool :=
  other.dayNumber ≤ date.dayNumber

/-- A year in four digits; years of more digits, and years before zero, carry a
sign. -/
def yearText (year : Int) : List Char :=
  if 0 ≤ year ∧ year ≤ 9999 then Text.ofNatPadded 4 year.toNat
  else (if year < 0 then '-' else '+') :: Text.ofNatPadded 4 year.natAbs

/-- A date as year, month and day between hyphens. -/
def text (date : Date) : List Char :=
  yearText date.year ++ '-' :: Text.ofNatPadded 2 date.month ++ '-' :: Text.ofNatPadded 2 date.day

end Date

end Worksheet
