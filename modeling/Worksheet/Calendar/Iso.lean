import Worksheet.Calendar.TimeOfDay
import Worksheet.Text.Blank

/-!
# Reading dates and times from their interchange form

Stored data holds dates as `2024-02-29`, times as `10:30:00.5` and both as
`2024-02-29T10:30:00`. Reading is lenient about blanks before numbers and
separators, about missing leading zeros, and about digits past the ninth of a
fraction; the seconds of a lone time may be left out, and a sixtieth second is a
leap second.
-/

namespace Worksheet.Iso

/-- The number of one to `width` digits at the start of a text, and what follows
it. -/
def number? (width : Nat) (text : List Char) : Option (Nat × List Char) :=
  let digits := (text.take width).takeWhile Char.isDigit
  if digits.isEmpty then none
  else some (Text.digitsValue digits, text.drop digits.length)

/-- A number of at most two digits after blanks, no larger than a bound. -/
def field? (low high : Nat) (text : List Char) : Option (Nat × List Char) :=
  match number? 2 (text.dropWhile Text.isBlank) with
  | some (value, rest) => if low ≤ value ∧ value ≤ high then some (value, rest) else none
  | none => none

/-- A separator after blanks. -/
def separator? (mark : Char) (text : List Char) : Option (List Char) :=
  match text.dropWhile Text.isBlank with
  | c :: rest => if c = mark then some rest else none
  | [] => none

/-- A year after blanks: four digits, or any number of them after a sign. -/
def year? (text : List Char) : Option (Int × List Char) :=
  match text.dropWhile Text.isBlank with
  | '-' :: rest => (number? rest.length rest).map fun (value, rest) => (-(value : Int), rest)
  | '+' :: rest => (number? rest.length rest).map fun (value, rest) => ((value : Int), rest)
  | rest => (number? 4 rest).map fun (value, rest) => ((value : Int), rest)

/-- A date at the start of a text. -/
def datePart? (text : List Char) : Option (Date × List Char) := do
  let (year, rest) ← year? text
  let rest ← separator? '-' rest
  let (month, rest) ← field? 1 12 rest
  let rest ← separator? '-' rest
  let (day, rest) ← field? 1 31 rest
  let date ← Date.ofParts? year month day
  return (date, rest)

/-- A fraction of a second in nanoseconds, when a point starts one. -/
def fraction? : List Char → Option (Nat × List Char)
  | '.' :: rest =>
    let digits := (rest.take 9).takeWhile Char.isDigit
    if digits.isEmpty then none
    else
      some (Text.digitsValue digits * 10 ^ (9 - digits.length),
        (rest.drop digits.length).dropWhile Char.isDigit)
  | rest => some (0, rest)

/-- Seconds and their fraction after a colon. -/
def secondsPart? (text : List Char) : Option ((Nat × Nat) × List Char) := do
  let rest ← separator? ':' text
  let (second, rest) ← field? 0 60 rest
  let (nanos, rest) ← fraction? rest
  return ((second, nanos), rest)

/-- The time with a second that may be the sixtieth: `TimeOfDay` keeps that as a
fraction of a second or more behind the fifty-ninth. -/
def timeOf? (hour minute second nanos : Nat) : Option TimeOfDay :=
  if second = 60 then TimeOfDay.ofParts? hour minute 59 (nanosPerSecond + nanos)
  else TimeOfDay.ofParts? hour minute second nanos

/-- Hour and minute at the start of a text. -/
def minutesPart? (text : List Char) : Option ((Nat × Nat) × List Char) := do
  let (hour, rest) ← field? 0 23 text
  let rest ← separator? ':' rest
  let (minute, rest) ← field? 0 59 rest
  return ((hour, minute), rest)

/-- The date a text spells. -/
def date? (text : List Char) : Option Date :=
  match datePart? text with
  | some (date, []) => some date
  | _ => none

/-- The time a text spells; the seconds may be missing here, though not in
`dateTime?`. -/
def time? (text : List Char) : Option TimeOfDay :=
  match minutesPart? text with
  | none => none
  | some ((hour, minute), rest) =>
    let ((second, nanos), rest) := (secondsPart? rest).getD ((0, 0), rest)
    if rest.all Text.isBlank then timeOf? hour minute second nanos else none

/-- The date and time a text spells. -/
def dateTime? (text : List Char) : Option DateTime := do
  let (date, rest) ← datePart? text
  let rest ← separator? 'T' rest
  let ((hour, minute), rest) ← minutesPart? rest
  let ((second, nanos), rest) ← secondsPart? rest
  let time ← timeOf? hour minute second nanos
  if rest.all Text.isBlank then return ⟨date, time⟩ else none

end Worksheet.Iso
