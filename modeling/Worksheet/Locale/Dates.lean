import Worksheet.Text.Basic

/-!
# Names in dates

The names of months and weekdays, the marks of the two halves of a day, and the
year at which two-digit years turn over. Weekdays start on Monday.
-/

namespace Worksheet

/-- The words of written dates and times. -/
structure DateNames where
  /-- January to December. -/
  monthNames : List (List Char)
  /-- Jan to Dec. -/
  monthAbbreviations : List (List Char)
  /-- Monday to Sunday. -/
  weekdayNames : List (List Char)
  /-- Mon to Sun. -/
  weekdayAbbreviations : List (List Char)
  /-- The mark of the hours before noon. -/
  am : List Char
  /-- The mark of the hours from noon on. -/
  pm : List Char
  /-- Two-digit years below this one belong to the 2000s, the others to the
  1900s. -/
  pivot : Nat
  deriving DecidableEq

namespace DateNames

/-- The names of the months in English. -/
def englishMonths : List (List Char) :=
  ["January", "February", "March", "April", "May", "June", "July", "August", "September",
    "October", "November", "December"].map String.toList

/-- The names of the weekdays in English. -/
def englishWeekdays : List (List Char) :=
  ["Monday", "Tuesday", "Wednesday", "Thursday", "Friday", "Saturday", "Sunday"].map
    String.toList

/-- The names used when none are given. -/
def standard : DateNames where
  monthNames := englishMonths
  monthAbbreviations := englishMonths.map (List.take 3)
  weekdayNames := englishWeekdays
  weekdayAbbreviations := englishWeekdays.map (List.take 3)
  am := ['A', 'M']
  pm := ['P', 'M']
  pivot := 30

/-- The first of some names that starts a text in either case: its place in the
list, and what follows it. -/
def dropName? (names : List (List Char)) (text : List Char) : Option (Nat × List Char) :=
  (names.zipIdx).findSome? fun (name, index) =>
    (Text.dropIgnoringCase? name text).map (index, ·)

/-- The month a text starts with, from 1, and what follows it. Full names are
tried first. -/
def dropMonth? (names : DateNames) (text : List Char) : Option (Nat × List Char) :=
  ((dropName? names.monthNames text).or (dropName? names.monthAbbreviations text)).map
    fun (index, rest) => (index + 1, rest)

/-- What follows the weekday a text starts with. Full names are tried first. -/
def dropWeekday? (names : DateNames) (text : List Char) : Option (List Char) :=
  ((dropName? names.weekdayNames text).or (dropName? names.weekdayAbbreviations text)).map
    fun (_, rest) => rest

/-- The year a two-digit year stands for: below the pivot in the two thousands,
from it on in the nineteen hundreds. Years are counted in signed words of 32
bits, and one that is too large for them starts over at the far end. -/
def expandYear (names : DateNames) (year : Nat) : Int :=
  Int.bmod (if year < names.pivot then 2000 + year else 1900 + year) (2 ^ 32)

end DateNames

end Worksheet
