import Worksheet.Formula.Operator
import Worksheet.Text.Lower
import Worksheet.Value.Basic

/-!
# Comparing values

The operators that compare bring both values to a form in which any two can be
compared: numbers come before texts, and texts before booleans. Dates and times
count as numbers by their serials, selections as texts, and texts are compared
in lower case. Nothing takes the kind of the other value: it is zero, the empty
text or FALSE.
-/

namespace Worksheet.Formula

/-- The form of a value in which it is compared. -/
inductive Comparable where
  | number (value : Float)
  | text (value : List Char)
  | boolean (value : Bool)

namespace Comparable

/-- The order of two numbers; NaN has none. -/
def numberOrder? (a b : Float) : Option Ordering :=
  if a < b then some .lt
  else if a == b then some .eq
  else if b < a then some .gt
  else none

/-- **The order of two forms**, if they have one: by kind first, and within a
kind by what they hold. Only NaN beside a number has none. -/
def order? : Comparable → Comparable → Option Ordering
  | number a, number b => numberOrder? a b
  | text a, text b => some (compare a b)
  | boolean a, boolean b => some (compare a b)
  | number _, _ | text _, boolean _ => some .lt
  | boolean _, _ | text _, number _ => some .gt

/-- The form of nothing beside another value. -/
def emptyBeside : Value → Comparable
  | .text _ | .selection _ => text []
  | .boolean _ => boolean false
  | _ => number 0

/-- The form of a value beside another value, which matters when the value is
nothing (`emptyBeside`). -/
def ofValue (other : Value) : Value → Comparable
  | .text value => text (Text.lower value)
  | .boolean value => boolean value
  | .selection value => text (Text.lower value.text)
  | .empty => emptyBeside other
  | value => number (value.serial?.getD 0)

end Comparable

/-- Whether a comparison holds of values in a given order; operators that do not
compare never hold. -/
def Operator.holds (operator : Operator) (order : Option Ordering) : Bool :=
  match operator with
  | .equal => order == some .eq
  | .notEqual => order != some .eq
  | .greater => order == some .gt
  | .greaterEqual => order == some .gt || order == some .eq
  | .less => order == some .lt
  | .lessEqual => order == some .lt || order == some .eq
  | _ => false

/-- Whether two values compare as an operator says. -/
def Operator.compares (operator : Operator) (left right : Value) : Bool :=
  operator.holds ((Comparable.ofValue right left).order? (Comparable.ofValue left right))

end Worksheet.Formula
