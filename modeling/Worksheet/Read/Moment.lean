import Worksheet.Locale.Basic
import Worksheet.Pattern.Moment
import Worksheet.Value.Basic

/-!
# Reading dates and times

A pattern for reading dates or times has sections that are tried in turn. Each
component of a section takes its field from the front of the text; what no
component gives is the start of the year 1900, and midnight.
-/

namespace Worksheet.Read

open Pattern

/-- The fields of a moment that have been read. -/
structure Fields where
  year : Option Int
  month : Option Nat
  day : Option Nat
  hour : Nat
  minute : Nat
  second : Nat
  nanos : Nat
  /-- The half of the day, if there was a mark for it. -/
  afternoon : Option Bool
  deriving DecidableEq

namespace Fields

/-- No field. -/
def blank : Fields where
  year := none
  month := none
  day := none
  hour := 0
  minute := 0
  second := 0
  nanos := 0
  afternoon := none

/-- The year of a date that has none. -/
def defaultYear : Int := 1900

/-- The date the fields make up. -/
def date? (fields : Fields) : Option Date :=
  Date.ofParts? (fields.year.getD defaultYear) (fields.month.getD 1) (fields.day.getD 1)

/-- The hour of the day; with a mark for the half of it, hours run from one to
twelve. -/
def hour? (fields : Fields) : Option Nat :=
  match fields.afternoon with
  | some afternoon =>
    if 1 ≤ fields.hour ∧ fields.hour ≤ 12 then
      some (fields.hour % 12 + if afternoon then 12 else 0)
    else none
  | none => some fields.hour

/-- The time the fields make up. -/
def time? (fields : Fields) : Option TimeOfDay :=
  match fields.hour? with
  | some hour => TimeOfDay.ofParts? hour fields.minute fields.second fields.nanos
  | none => none

end Fields

/-- The number of at least `low` and at most `high` digits at the front of a
text, as many as there are, and what follows it. -/
def takeNumber? (low high : Nat) (text : List Char) : Option (Nat × List Char) :=
  let digits := (text.take high).takeWhile Char.isDigit
  if digits.length < low then none
  else some (Text.digitsValue digits, text.drop digits.length)

/-- A fraction of a second in nanoseconds; digits past the ninth do not count. -/
def takeFraction? (text : List Char) : Option (Nat × List Char) :=
  let (digits, rest) := Text.takeRun Char.isDigit text
  let kept := digits.take 9
  if digits.isEmpty then none
  else some (Text.digitsValue kept * 10 ^ (9 - kept.length), rest)

/-- The mark of a half of the day as it is looked for: its first character for a
short marker. -/
def halfMark (marker word : List Char) : List Char :=
  if Text.byteLength marker ≤ 3 then word.take 1 else word

/-- **The field a component takes from the front of a text**, and what follows
it. A component that finds nothing fails the section, but for a fraction of a
second, which may be missing. -/
def takeComponent? (locale : Locale) (component : Component) (fields : Fields)
    (text : List Char) : Option (Fields × List Char) :=
  match component with
  | .day count =>
    if count ≤ 2 then
      (takeNumber? 1 2 text).map fun (day, rest) => ({ fields with day := some day }, rest)
    else (locale.dates.dropWeekday? text).map (fields, ·)
  | .month count =>
    (if count ≤ 2 then takeNumber? 1 2 text else locale.dates.dropMonth? text).map
      fun (month, rest) => ({ fields with month := some month }, rest)
  | .year count =>
    if count ≤ 2 then
      (takeNumber? 2 2 text).map fun (year, rest) =>
        ({ fields with year := some (locale.dates.expandYear year) }, rest)
    else
      (takeNumber? 4 4 text).map fun (year, rest) =>
        ({ fields with year := some (year : Int) }, rest)
  | .hour _ =>
    (takeNumber? 1 2 text).map fun (hour, rest) => ({ fields with hour }, rest)
  | .minute _ =>
    (takeNumber? 1 2 text).map fun (minute, rest) => ({ fields with minute }, rest)
  | .second _ =>
    (takeNumber? 1 2 text).map fun (second, rest) => ({ fields with second }, rest)
  | .secondFraction _ =>
    match text with
    | c :: rest =>
      if c = locale.numbers.decimalPoint then
        (takeFraction? rest).map fun (nanos, rest) => ({ fields with nanos }, rest)
      else some (fields, text)
    | [] => some (fields, text)
  | .amPm marker =>
    match Text.dropIgnoringCase? (halfMark marker locale.dates.pm) text with
    | some rest => some ({ fields with afternoon := some true }, rest)
    | none =>
      (Text.dropIgnoringCase? (halfMark marker locale.dates.am) text).map fun rest =>
        ({ fields with afternoon := some false }, rest)
  | .whitespace _ =>
    match text with
    | c :: rest => if c = ' ' then some (fields, rest.dropWhile (· == ' ')) else none
    | [] => none
  | .literal literal => (Text.dropIgnoringCase? literal text).map (fields, ·)

/-- The fields some components take from the front of a text, and what follows
them. -/
def takeComponents? (locale : Locale) :
    List Component → Fields → List Char → Option (Fields × List Char)
  | [], fields, text => some (fields, text)
  | component :: components, fields, text =>
    match takeComponent? locale component fields text with
    | some (fields, rest) => takeComponents? locale components fields rest
    | none => none

/-- What a pattern for dates and times reads. -/
inductive MomentKind where
  | date
  | time
  | dateTime
  deriving DecidableEq, Repr

/-- The value some fields make up. -/
def MomentKind.value? (kind : MomentKind) (fields : Fields) : Option Value :=
  match kind with
  | .date => fields.date?.map .date
  | .time => fields.time?.map .time
  | .dateTime =>
    match fields.date?, fields.time? with
    | some day, some clock => some (.dateTime ⟨day, clock⟩)
    | _, _ => none

/-- **A pattern for reading dates or times**: what it reads, and the components
of each section. `read?` tries the sections in turn. -/
structure MomentReader where
  /-- What is read. -/
  kind : MomentKind
  /-- The sections that are not empty, in the order they are tried. -/
  candidates : List (List Component)
  deriving DecidableEq

namespace MomentReader

/-- What a pattern of a kind reads, if it reads dates or times. -/
def kindOf? : Pattern.Kind → Option MomentKind
  | .dateParse => some .date
  | .timeParse => some .time
  | .dateTimeParse => some .dateTime
  | _ => none

/-- The reader of a pattern, if it is for reading dates or times. -/
def ofPattern? (pattern : Pattern) : Except PatternError MomentReader :=
  match kindOf? pattern.kind with
  | some kind =>
    .ok ⟨kind, pattern.sections.filterMap fun tree =>
      tree.map fun tree => Component.ofLeaves (kind = .time) (contentLeaves tree)⟩
  | none => .error (.wrongKind pattern.kind .dateTimeParser)

/-- The value a whole text is by one section: the fields its components take
(`takeComponents?`), if nothing is left, made up by `MomentKind.value?`. -/
def readBy? (kind : MomentKind) (locale : Locale) (text : List Char)
    (components : List Component) : Option Value :=
  match takeComponents? locale components .blank text with
  | some (fields, []) => kind.value? fields
  | _ => none

/-- The value a whole text is, by the first section that reads one. -/
def read? (reader : MomentReader) (locale : Locale) (text : List Char) : Option Value :=
  reader.candidates.findSome? (readBy? reader.kind locale text)

end MomentReader

end Worksheet.Read
