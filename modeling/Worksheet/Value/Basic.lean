import Worksheet.Calendar.Serial
import Worksheet.Number.Decimal
import Worksheet.Reference.Selection
import Worksheet.Value.CellError

/-!
# Values

What a cell can hold and a formula can come to. Numbers, dates, times and
booleans have a serial number; nothing else does.

Equality of values compares numbers as numbers, so that NaN is unequal to itself
and the two zeros are equal, while a number is hashed by its bits.
-/

namespace Worksheet

/-- A value. -/
inductive Value where
  /-- A whole number. -/
  | int (value : Int)
  /-- A double. -/
  | number (value : Float)
  /-- A text. -/
  | text (value : List Char)
  /-- TRUE or FALSE. -/
  | boolean (value : Bool)
  /-- A date. -/
  | date (value : Date)
  /-- A date with a time. -/
  | dateTime (value : DateTime)
  /-- A time of day. -/
  | time (value : TimeOfDay)
  /-- A reference to cells. -/
  | selection (value : Selection)
  /-- An error value. -/
  | error (value : CellError)
  /-- Nothing. -/
  | empty

namespace Value

/-- **Two values are equal** when they are of one kind and hold the same;
numbers compare as numbers and labels without regard to case. -/
protected def beq : Value → Value → Bool
  | .int a, .int b => a == b
  | .number a, .number b => a == b
  | .text a, .text b => a == b
  | .boolean a, .boolean b => a == b
  | .date a, .date b => a == b
  | .dateTime a, .dateTime b => a == b
  | .time a, .time b => a == b
  | .selection a, .selection b => a == b
  | .error a, .error b => a == b
  | .empty, .empty => true
  | _, _ => false

instance : BEq Value := ⟨Value.beq⟩

/-- **What a value is hashed by**: its kind, and what it holds, a number by its
bits. Equal numbers can differ in these. -/
def hashed : Value → List Int
  | .int a => [0, a]
  | .number a => [1, a.toBits.toNat]
  | .text a => 2 :: a.map fun c => (c.toNat : Int)
  | .boolean a => [3, a.toNat]
  | .date a => [4, a.dayNumber]
  | .dateTime a => 5 :: a.hashed
  | .time a => 6 :: a.hashed
  | .selection a => 7 :: a.hashed
  | .error a => 8 :: a.hashed
  | .empty => [9]

instance : Hashable Value where
  hash value := hash value.hashed

/-- How TRUE and FALSE are written. -/
def booleanText (value : Bool) : List Char :=
  if value then "TRUE".toList else "FALSE".toList

/-- The plain text of a value; an error shows its code only. -/
def plainText : Value → List Char
  | .int a => Text.ofInt a
  | .number a => Number.plainText a
  | .text a => a
  | .boolean a => booleanText a
  | .date a => a.text
  | .dateTime a => a.textWith ' '
  | .time a => a.text
  | .selection a => a.text
  | .error a => a.kind.text
  | .empty => []

/-- The number a value stands for in a calculation on serials. -/
def serial? : Value → Option Float
  | .date a => some (Serial.ofDateTime ⟨a, .midnight⟩)
  | .dateTime a => some (Serial.ofDateTime a)
  | .time a => some (Serial.ofTime a)
  | .int a => some (Number.ofInt a)
  | .number a => some a
  | .boolean a => some (if a then 1 else 0)
  | _ => none

/-- The date of a serial, or the moment when it has a time. -/
def ofSerial? (serial : Float) : Option Value :=
  (Serial.toDateTime? serial).map fun moment =>
    if moment.time = .midnight then .date moment.date else .dateTime moment

/-- Whether a value is an error. -/
def isError : Value → Bool
  | .error _ => true
  | _ => false

/-- Whether a value counts as true: zero, the empty text, FALSE, errors and
nothing do not. -/
def isTruthy : Value → Bool
  | .boolean a => a
  | .int a => a != 0
  | .number a => a != 0
  | .text a => !a.isEmpty
  | .date _ | .dateTime _ | .time _ | .selection _ => true
  | .error _ | .empty => false

end Value

/-- The kinds of values, whole and other numbers being one. -/
inductive ValueKind where
  | number
  | text
  | boolean
  | date
  | dateTime
  | time
  | selection
  | error
  | empty
  deriving DecidableEq, Repr

/-- The kind of a value. -/
def Value.kind : Value → ValueKind
  | .int _ | .number _ => .number
  | .text _ => .text
  | .boolean _ => .boolean
  | .date _ => .date
  | .dateTime _ => .dateTime
  | .time _ => .time
  | .selection _ => .selection
  | .error _ => .error
  | .empty => .empty

end Worksheet
