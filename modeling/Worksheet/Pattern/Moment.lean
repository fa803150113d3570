import Worksheet.Pattern.Section

/-!
# Components of dates and times

Date, time and date-time sections are lists of components, read off their
leaves. A run of the letter `m` is a month or a minute: it is a minute right
after an hour or right before a second, whatever literals stand between, and
anywhere in a pattern for times. Zeros after a decimal point are the digits of a
fraction of a second.
-/

namespace Worksheet.Pattern

/-- A component of a date or a time. Letters carry how often they are repeated. -/
inductive Component where
  | day (count : Nat)
  | month (count : Nat)
  | minute (count : Nat)
  | year (count : Nat)
  | hour (count : Nat)
  | second (count : Nat)
  /-- A decimal point and a fraction of a second of some digits. -/
  | secondFraction (digits : Nat)
  /-- The half of the day, with the marker as the pattern has it. -/
  | amPm (marker : List Char)
  | whitespace (text : List Char)
  | literal (text : List Char)
  deriving DecidableEq

namespace Component

/-- Whether a component is written with letters. -/
def isField : Component → Bool
  | day _ | month _ | minute _ | year _ | hour _ | second _ => true
  | _ => false

/-- Whether a component is an hour. -/
def isHour : Component → Bool
  | hour _ => true
  | _ => false

/-- Whether a component is a second. -/
def isSecond : Component → Bool
  | second _ => true
  | _ => false

/-- The component a leaf is by itself, and whether it may be a minute instead. A
pattern for times has minutes only. -/
def ofLeaf? (minutes : Bool) (kind : LeafKind) (text : List Char) : Option (Component × Bool) :=
  match kind with
  | .day count => some (.day count, false)
  | .month count => some (.month count, false)
  | .monthOrMinute count => some (if minutes then (.minute count, false) else (.month count, true))
  | .year count => some (.year count, false)
  | .hour count => some (.hour count, false)
  | .second count => some (.second count, false)
  | .amPm => some (.amPm text, false)
  | .whitespace => some (.whitespace text, false)
  | .underscore _ => some (.literal [' '], false)
  | other => (other.literal? text).map fun literal => (.literal literal, false)

/-- The components of some leaves, each with whether it may be a minute, and the
number of zeros among the leaves before the first component. `resolve` settles
the first question, a decimal point in front the second. -/
def unresolved (minutes : Bool) : List Token → List (Component × Bool) × Nat
  | [] => ([], 0)
  | .parent .. :: leaves => unresolved minutes leaves
  | .leaf kind text :: leaves =>
    let (components, zeros) := unresolved minutes leaves
    match kind with
    | .digitZero => (components, zeros + 1)
    | .decimalPoint => ((.secondFraction zeros, false) :: components, 0)
    | kind =>
      match ofLeaf? minutes kind text with
      | some component => (component :: components, 0)
      | none => (components, zeros)

/-- **Components with every month told apart from a minute**, given the last
field before them: a minute behind an hour or before a second, and a month
elsewhere. -/
def resolve (previous : Option Component) : List (Component × Bool) → List Component
  | [] => []
  | (component, ambiguous) :: rest =>
    let following := (rest.map Prod.fst).find? isField
    let component :=
      match component with
      | .month count =>
        if ambiguous && (previous.any isHour || following.any isSecond) then .minute count
        else .month count
      | other => other
    component :: resolve (if component.isField then some component else previous) rest

/-- The components some leaves make up. -/
def ofLeaves (minutes : Bool) (leaves : List Token) : List Component :=
  resolve none (unresolved minutes leaves).1

end Component

end Worksheet.Pattern
