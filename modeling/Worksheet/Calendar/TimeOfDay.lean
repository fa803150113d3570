import Worksheet.Calendar.Date

/-!
# Times of day, and dates with a time

A time of day is a second of the day and a fraction of it in nanoseconds. A
fraction of one second or more is a leap second: it is written as the sixtieth
second of its minute.
-/

namespace Worksheet

/-- The seconds of a day. -/
def secondsPerDay : Nat := 86400

/-- The nanoseconds of a second. -/
def nanosPerSecond : Nat := 1000000000

/-- A time of day. -/
structure TimeOfDay where
  /-- Whole seconds since midnight. -/
  seconds : Nat
  /-- The fraction in nanoseconds; a leap second goes on past a whole second. -/
  nanos : Nat
  seconds_lt : seconds < secondsPerDay
  nanos_lt : nanos < 2 * nanosPerSecond
  deriving DecidableEq

namespace TimeOfDay

/-- The time with so many seconds since midnight and so many nanoseconds, when
there is one. -/
def ofSeconds? (seconds nanos : Nat) : Option TimeOfDay :=
  if h : seconds < secondsPerDay ∧ nanos < 2 * nanosPerSecond then
    some ⟨seconds, nanos, h.1, h.2⟩
  else none

/-- The time with an hour, a minute, a second and nanoseconds. Only the last
second of a minute can be a leap second, though `ofSeconds?` allows one
anywhere. -/
def ofParts? (hour minute second nanos : Nat) : Option TimeOfDay :=
  if hour < 24 ∧ minute < 60 ∧ second < 60 ∧ (nanos < nanosPerSecond ∨ second = 59) then
    ofSeconds? (hour * 3600 + minute * 60 + second) nanos
  else none

/-- What a time is hashed by. -/
def hashed (time : TimeOfDay) : List Int :=
  [time.seconds, time.nanos]

/-- The start of the day. -/
def midnight : TimeOfDay :=
  ⟨0, 0, by decide, by decide⟩

/-- The hour, from 0 to 23. -/
def hour (time : TimeOfDay) : Nat :=
  time.seconds / 3600

/-- The minute of the hour. -/
def minute (time : TimeOfDay) : Nat :=
  time.seconds / 60 % 60

/-- The second of the minute. -/
def second (time : TimeOfDay) : Nat :=
  time.seconds % 60

/-- A fraction of a second in nanoseconds, in groups of three digits and no
longer than it has to be. -/
def fractionText (nanos : Nat) : List Char :=
  if nanos = 0 then []
  else if nanos % 1000000 = 0 then '.' :: Text.ofNatPadded 3 (nanos / 1000000)
  else if nanos % 1000 = 0 then '.' :: Text.ofNatPadded 6 (nanos / 1000)
  else '.' :: Text.ofNatPadded 9 nanos

/-- A time as hour, minute and second between colons. -/
def text (time : TimeOfDay) : List Char :=
  let leap := nanosPerSecond ≤ time.nanos
  let second := if leap then time.second + 1 else time.second
  let nanos := if leap then time.nanos - nanosPerSecond else time.nanos
  Text.ofNatPadded 2 time.hour ++ ':' :: Text.ofNatPadded 2 time.minute
    ++ ':' :: Text.ofNatPadded 2 second ++ fractionText nanos

end TimeOfDay

/-- A date and a time of that day. -/
structure DateTime where
  /-- The day. -/
  date : Date
  /-- The time of the day. -/
  time : TimeOfDay
  deriving DecidableEq

namespace DateTime

/-- What a date with a time is hashed by. -/
def hashed (moment : DateTime) : List Int :=
  moment.date.dayNumber :: moment.time.hashed

/-- Date and time with a separator between them. -/
def textWith (separator : Char) (moment : DateTime) : List Char :=
  moment.date.text ++ separator :: moment.time.text

end DateTime

end Worksheet
