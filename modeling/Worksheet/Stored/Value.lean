import Worksheet.Calendar.Iso
import Worksheet.Stored.Reference
import Worksheet.Value.Basic

/-!
# Stored values

A value is stored under the name of its kind. Dates and times are stored as
texts in their interchange form, and error values with their code and
explanation.
-/

namespace Worksheet

/-- The name a code is stored by. -/
def CellErrorKind.storedName : CellErrorKind → String
  | null => "Null"
  | division => "Div"
  | value => "Value"
  | reference => "Ref"
  | name => "Name"
  | number => "Num"
  | notAvailable => "Na"
  | spill => "Spill"
  | calculation => "Calc"

/-- A code, stored. -/
def CellErrorKind.toDatum (kind : CellErrorKind) : Datum :=
  .name kind.storedName

/-- A stored code. -/
def CellErrorKind.ofDatum? : Datum → Option CellErrorKind :=
  Datum.choice? all storedName

/-- An error value, stored. -/
def CellError.toDatum (error : CellError) : Datum :=
  .record [("kind", error.kind.toDatum), ("message", .ofOption .text error.explanation)]

/-- A stored error value. -/
def CellError.ofDatum? (datum : Datum) : Option CellError :=
  match datum.fields? ["kind", "message"] with
  | some [kind, explanation] => do
    return ⟨← CellErrorKind.ofDatum? kind, ← explanation.option? Datum.text?⟩
  | _ => none

/-- A date, stored. -/
def Date.toDatum (date : Date) : Datum :=
  .text date.text

/-- A stored date. -/
def Date.ofDatum? (datum : Datum) : Option Date :=
  datum.text?.bind Iso.date?

/-- A time of day, stored. -/
def TimeOfDay.toDatum (time : TimeOfDay) : Datum :=
  .text time.text

/-- A stored time of day. -/
def TimeOfDay.ofDatum? (datum : Datum) : Option TimeOfDay :=
  datum.text?.bind Iso.time?

/-- A date with a time, stored. -/
def DateTime.toDatum (moment : DateTime) : Datum :=
  .text (moment.textWith 'T')

/-- A stored date with a time. -/
def DateTime.ofDatum? (datum : Datum) : Option DateTime :=
  datum.text?.bind Iso.dateTime?

namespace Value

/-- A value, stored. -/
def toDatum : Value → Datum
  | .int value => .tagged "Int" (.integer value)
  | .number value => .tagged "Number" (.float value)
  | .text value => .tagged "Text" (.text value)
  | .boolean value => .tagged "Boolean" (.boolean value)
  | .date value => .tagged "Date" value.toDatum
  | .dateTime value => .tagged "DateTime" value.toDatum
  | .time value => .tagged "Time" value.toDatum
  | .selection value => .tagged "Selection" value.toDatum
  | .error value => .tagged "Error" value.toDatum
  | .empty => .name "Empty"

/-- A stored value. -/
def ofDatum? (datum : Datum) : Option Value :=
  match datum.case? with
  | some ("Int", content) => (content.between? (-(2 ^ 63)) (2 ^ 63 - 1)).map .int
  | some ("Number", content) => content.float?.map .number
  | some ("Text", content) => content.text?.map .text
  | some ("Boolean", content) => content.boolean?.map .boolean
  | some ("Date", content) => (Date.ofDatum? content).map .date
  | some ("DateTime", content) => (DateTime.ofDatum? content).map .dateTime
  | some ("Time", content) => (TimeOfDay.ofDatum? content).map .time
  | some ("Selection", content) => (Selection.ofDatum? content).map .selection
  | some ("Error", content) => (CellError.ofDatum? content).map .error
  | some ("Empty", .null) => some .empty
  | _ => none

end Value

end Worksheet
