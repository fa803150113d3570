import Worksheet.Format.Formatter
import Worksheet.Read.Moment
import Worksheet.Read.Number

/-!
# Converting values

A converter has a pattern for each kind of value that is written by one, and for
each that is read by one. It writes values as text, reads text as a value of a
given kind, and turns values of one kind into another: through text, or through
serial numbers.
-/

namespace Worksheet

open Pattern Format Read

/-- The name of a kind of value. -/
def ValueKind.name : ValueKind → String
  | number => "number"
  | text => "text"
  | boolean => "boolean"
  | date => "date"
  | dateTime => "date-time"
  | time => "time"
  | selection => "selection"
  | error => "error"
  | empty => "empty"

/-- Whether a kind is one of dates or times. -/
def ValueKind.isTemporal : ValueKind → Bool
  | date | dateTime | time => true
  | _ => false

/-- The patterns of a converter. -/
structure ConverterPatterns where
  numberFormat : List Char
  dateFormat : List Char
  dateTimeFormat : List Char
  timeFormat : List Char
  textFormat : List Char
  numberParse : List Char
  dateParse : List Char
  dateTimeParse : List Char
  timeParse : List Char
  deriving DecidableEq

/-- The patterns used when none are given. -/
def ConverterPatterns.standard : ConverterPatterns where
  numberFormat := "General".toList
  dateFormat := "yyyy-mm-dd".toList
  dateTimeFormat := "yyyy-mm-dd hh:mm:ss".toList
  timeFormat := "hh:mm:ss".toList
  textFormat := "@".toList
  numberParse := "#,##0.#E+0;#,##0.#;#,##0.#%;$#,##0.#".toList
  dateParse := "yyyy-mm-dd;yyyy/mm/dd;d mmm yyyy;mmmm d, yyyy".toList
  dateTimeParse :=
    ("yyyy-mm-dd hh:mm:ss.000;yyyy-mm-dd hh:mm;"
      ++ "yyyy/mm/dd hh:mm:ss.000;yyyy/mm/dd hh:mm").toList
  timeParse := "h:mm:ss AM/PM;h:mm AM/PM;hh:mm:ss.000;hh:mm".toList

/-- Why a value was not converted. -/
inductive ConvertError where
  /-- There is no way from one kind to the other. -/
  | unsupported (source target : ValueKind)
  /-- No pattern of the kind reads the text. -/
  | noMatch (text : List Char) (target : ValueKind)
  /-- There is no date for the serial. -/
  | outOfRange (serial : Float)
  deriving Repr

/-- The wording of a conversion error. -/
def ConvertError.message : ConvertError → String
  | unsupported source target => s!"cannot convert {source.name} to {target.name}"
  | noMatch text target => s!"{quote text} does not match any {target.name} pattern"
  | outOfRange serial =>
    s!"{String.ofList (Number.plainText serial)} is outside the date range"

/-- A converter: its patterns, compiled, and its locale. -/
structure Converter where
  numberFormat : Formatter
  dateFormat : Formatter
  dateTimeFormat : Formatter
  timeFormat : Formatter
  textFormat : Formatter
  numberReader : NumberReader
  dateReader : MomentReader
  dateTimeReader : MomentReader
  timeReader : MomentReader
  locale : Locale

namespace Converter

/-- The formatter a text spells for a purpose. -/
def formatterOf? (kind : Pattern.Kind) (text : List Char) : Except PatternError Formatter := do
  Formatter.ofPattern? (← Pattern.ofText? kind text)

/-- The reader for dates or times a text spells for a purpose. -/
def momentReaderOf? (kind : Pattern.Kind) (text : List Char) :
    Except PatternError MomentReader := do
  MomentReader.ofPattern? (← Pattern.ofText? kind text)

/-- The reader for numbers a text spells. -/
def numberReaderOf? (text : List Char) : Except PatternError NumberReader := do
  NumberReader.ofPattern? (← Pattern.ofText? .numberParse text)

/-- **The converter with some patterns and a locale**, every pattern compiled by
`formatterOf?`, `momentReaderOf?` or `numberReaderOf?`. Of several bad patterns,
the first is reported. -/
def ofPatterns? (patterns : ConverterPatterns) (locale : Locale) :
    Except PatternError Converter := do
  let numberFormat ← formatterOf? .numberFormat patterns.numberFormat
  let dateFormat ← formatterOf? .dateFormat patterns.dateFormat
  let dateTimeFormat ← formatterOf? .dateTimeFormat patterns.dateTimeFormat
  let timeFormat ← formatterOf? .timeFormat patterns.timeFormat
  let textFormat ← formatterOf? .textFormat patterns.textFormat
  let numberReader ← numberReaderOf? patterns.numberParse
  let dateReader ← momentReaderOf? .dateParse patterns.dateParse
  let dateTimeReader ← momentReaderOf? .dateTimeParse patterns.dateTimeParse
  let timeReader ← momentReaderOf? .timeParse patterns.timeParse
  return { numberFormat, dateFormat, dateTimeFormat, timeFormat, textFormat, numberReader,
           dateReader, dateTimeReader, timeReader, locale }

/-- The standard patterns make up a converter. -/
theorem isSome_ofPatterns?_standard :
    (ofPatterns? .standard .standard).toOption.isSome = true := by
  decide +kernel

/-- The converter with the standard patterns and locale. -/
def standard : Converter :=
  (ofPatterns? .standard .standard).toOption.get isSome_ofPatterns?_standard

/-- The formatter for a value, if values of its kind have one. -/
def formatterFor? (converter : Converter) : Value → Option Formatter
  | .int _ | .number _ => some converter.numberFormat
  | .date _ => some converter.dateFormat
  | .dateTime _ => some converter.dateTimeFormat
  | .time _ => some converter.timeFormat
  | .text _ => some converter.textFormat
  | _ => none

/-- **A value as text**: by the formatter for it (`formatterFor?`), or plainly
(`Value.plainText`) when that shows nothing of it. -/
def format (converter : Converter) (value : Value) : FormattedText :=
  (((converter.formatterFor? value).bind fun formatter =>
    formatter.format? converter.locale value)).getD ⟨value.plainText, none⟩

/-- The boolean a text spells, in either case. -/
def boolean? (text : List Char) : Option Bool :=
  if Text.equalIgnoringCase text "TRUE".toList then some true
  else if Text.equalIgnoringCase text "FALSE".toList then some false
  else none

/-- A text as a value of a kind, if it spells one. Dates, times and numbers are
read by the patterns; the other kinds are read the same whatever those are. -/
def read? (converter : Converter) (text : List Char) : ValueKind → Option Value
  | .number => (converter.numberReader.read? converter.locale.numbers text).map .number
  | .text => some (.text text)
  | .boolean => (boolean? text).map .boolean
  | .date => converter.dateReader.read? converter.locale text
  | .dateTime => converter.dateTimeReader.read? converter.locale text
  | .time => converter.timeReader.read? converter.locale text
  | .selection => (Selection.ofText? text).map .selection
  | .error => (CellErrorKind.ofText? text).map fun kind => .error (.ofKind kind)
  | .empty => if text.isEmpty then some .empty else none

/-- A text as a value of a kind. -/
def parse (converter : Converter) (text : List Char) (target : ValueKind) :
    Except ConvertError Value :=
  match converter.read? text target with
  | some value => .ok value
  | none => .error (.noMatch text target)

/-- The date, time or moment of a serial. A time is that of the fraction of the
serial, whatever its whole part. -/
def ofSerial (serial : Float) (target : ValueKind) : Except ConvertError Value :=
  match target with
  | .time =>
    .ok (.time (((Serial.toDateTime? (Number.unitRemainder serial)).map DateTime.time).getD
      .midnight))
  | _ =>
    match Serial.toDateTime? serial with
    | none => .error (.outOfRange serial)
    | some moment => .ok (if target = .date then .date moment.date else .dateTime moment)

/-- **A value as a value of another kind.** Anything becomes text (`format`),
and text whatever it spells (`parse`); numbers, dates and times become one
another through serials (`ofSerial`); nothing is zero or FALSE. -/
def convert (converter : Converter) (value : Value) (target : ValueKind) :
    Except ConvertError Value :=
  let unsupported : Except ConvertError Value := .error (.unsupported value.kind target)
  if value.kind = target then .ok value
  else
    match value, target with
    | value, .text => .ok (.text (converter.format value).text)
    | .text text, target => converter.parse text target
    | .empty, .number => .ok (.number 0)
    | .empty, .boolean => .ok (.boolean false)
    | .empty, _ | .selection _, _ | .error _, _ => unsupported
    | value, .number =>
      match value.serial? with
      | some serial => .ok (.number serial)
      | none => unsupported
    | value, target =>
      match value.serial? with
      | none => unsupported
      | some serial =>
        if target = .boolean ∧ value.kind = .number then .ok (.boolean (serial != 0))
        else if target.isTemporal ∧ value.kind ≠ .boolean then ofSerial serial target
        else unsupported

end Converter

end Worksheet
