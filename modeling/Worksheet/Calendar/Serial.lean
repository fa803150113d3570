import Worksheet.Calendar.TimeOfDay
import Worksheet.Number.Binary

/-!
# Serial numbers

A sheet keeps a moment as a number: whole days from the last day of 1899, and
the time of day as a fraction. The count holds a 29th of February 1900, which
the calendar does not have: from March 1900 on serials are one higher than the
days passed, and the serial 60 reads as the day before.
-/

namespace Worksheet.Serial

/-- The day with the serial 0. -/
def epoch : Date :=
  ⟨1899, 12, 31, by decide⟩

/-- The first day after the one the calendar does not have. -/
def afterPhantomDay : Date :=
  ⟨1900, 3, 1, by decide⟩

/-- The serial of a date as a whole number: the days since `epoch`, and one more
from `afterPhantomDay` on. -/
def ofDate (date : Date) : Int :=
  let days := date.dayNumber - epoch.dayNumber
  if date.notBefore afterPhantomDay then days + 1 else days

/-- The date of a whole serial. -/
def toDate? (serial : Int) : Option Date :=
  if serial = 60 then Date.ofParts? 1900 2 28
  else epoch.addDays? (if serial < 60 then serial else serial - 1)

/-- A time of day in seconds. -/
def secondsOf (time : TimeOfDay) : Float :=
  Float.ofNat time.seconds + Float.ofNat time.nanos / 1e9

/-- A time of day as a fraction of the day. -/
def ofTime (time : TimeOfDay) : Float :=
  secondsOf time / 86400

/-- The serial of a moment. -/
def ofDateTime (moment : DateTime) : Float :=
  Number.ofInt (ofDate moment.date) + ofTime moment.time

/-- **The moment of a serial** that is not negative, to the nearest millisecond.
A time that rounds up to a whole day falls on the next one, by `Date.addDays?`. -/
def toDateTime? (serial : Float) : Option DateTime :=
  if serial.isNaN || serial.isInf || serial < 0 then none
  else do
    let days := Number.toIntBetween (-(2 ^ 63)) (2 ^ 63 - 1) serial
    let millis := Number.roundNat (Number.fract serial * 86400000)
    let date ← toDate? days
    let time ← TimeOfDay.ofSeconds? (millis % 86400000 / 1000) (millis % 1000 * 1000000)
    let date ← date.addDays? (millis / 86400000)
    return ⟨date, time⟩

end Worksheet.Serial
