import Worksheet.Calendar.TimeOfDay
import Worksheet.Locale.Basic
import Worksheet.Pattern.Moment
import Worksheet.Text.Lower

/-!
# Writing dates and times

A date or time section writes each of its components for a moment. Hours run to
twelve when the section marks the halves of the day.
-/

namespace Worksheet.Format

open Pattern

/-- A number below a hundred in one or two digits, or always in two. -/
def padded (count value : Nat) : List Char :=
  if 2 ≤ count then Text.ofNatPadded 2 value else Text.ofNat value

/-- A year in four places, of which a minus sign takes one. -/
def fourDigitYear (year : Int) : List Char :=
  if year < 0 then '-' :: Text.ofNatPadded 3 year.natAbs else Text.ofNatPadded 4 year.natAbs

/-- The mark of a half of the day as a marker asks for it: its first character
for a marker of up to three bytes, and in lower case for a marker in lower
case. -/
def halfOfDay (names : DateNames) (marker : List Char) (afternoon : Bool) : List Char :=
  let word := if afternoon then names.pm else names.am
  let word := if Text.byteLength marker ≤ 3 then word.take 1 else word
  if marker.head?.any Char.isLower then Text.lower word else word

/-- The entry of a list of names, or nothing where the list ends before it. -/
def nameAt (names : List (List Char)) (index : Nat) : List Char :=
  names.getD index []

/-- A fraction of a second to some digits, of which there are nine. -/
def fractionDigits (digits nanos : Nat) : List Char :=
  let digits := min digits 9
  if digits = 0 then [] else Text.ofNatPadded digits (nanos % nanosPerSecond / 10 ^ (9 - digits))

/-- The text of a component for a moment. Whether hours run to twelve is decided
by the whole section, in `momentText`. -/
def componentText (locale : Locale) (twelveHours : Bool) (moment : DateTime) :
    Component → List Char
  | .day count =>
    if count = 3 then nameAt locale.dates.weekdayAbbreviations moment.date.weekday
    else if count = 1 ∨ count = 2 then padded count moment.date.day
    else nameAt locale.dates.weekdayNames moment.date.weekday
  | .month count =>
    let index := moment.date.month - 1
    if count = 1 ∨ count = 2 then padded count moment.date.month
    else if count = 3 then nameAt locale.dates.monthAbbreviations index
    else if count = 4 then nameAt locale.dates.monthNames index
    else (nameAt locale.dates.monthNames index).take 1
  | .year count =>
    if count ≤ 2 then Text.ofNatPadded 2 (moment.date.year % 100).toNat
    else fourDigitYear moment.date.year
  | .hour count =>
    let hour := moment.time.hour
    padded count (if twelveHours then if hour % 12 = 0 then 12 else hour % 12 else hour)
  | .minute count => padded count moment.time.minute
  | .second count => padded count moment.time.second
  | .secondFraction digits =>
    locale.numbers.decimalPoint :: fractionDigits digits moment.time.nanos
  | .amPm marker => halfOfDay locale.dates marker (12 ≤ moment.time.hour)
  | .whitespace text | .literal text => text

/-- Whether a component marks the half of the day. -/
def isHalfMark : Component → Bool
  | .amPm _ => true
  | _ => false

/-- **A moment as some components show it**, one after the other; hours run to
twelve if any of them marks the half of the day (`isHalfMark`). -/
def momentText (locale : Locale) (components : List Component) (moment : DateTime) : List Char :=
  components.flatMap (componentText locale (components.any isHalfMark) moment)

end Worksheet.Format
