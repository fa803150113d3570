import Worksheet.Formula.Basic
import Worksheet.Stored.Tree
import Worksheet.Stored.Value

/-!
# Stored formulas

A formula is stored with as much of it as there is: its text, its tree, its
expression and its value. Whether the parts fit together is not looked at when
it is read back.
-/

namespace Worksheet

namespace Formula

namespace Operator

/-- Every operator. -/
def all : List Operator :=
  [addition, subtraction, multiplication, division, power, equal, notEqual, greater, greaterEqual,
    less, lessEqual]

/-- The name an operator is stored by. -/
def storedName : Operator → String
  | addition => "Addition"
  | subtraction => "Subtraction"
  | multiplication => "Multiplication"
  | division => "Division"
  | power => "Power"
  | equal => "Equals"
  | notEqual => "NotEquals"
  | greater => "GreaterThan"
  | greaterEqual => "GreaterThanEquals"
  | less => "LessThan"
  | lessEqual => "LessThanEquals"

/-- An operator, stored. -/
def toDatum (operator : Operator) : Datum :=
  .name operator.storedName

/-- A stored operator. -/
def ofDatum? : Datum → Option Operator :=
  Datum.choice? all storedName

end Operator

namespace Mark

/-- The name a mark is stored by. -/
def storedName : Mark → String
  | operator .addition => "Plus"
  | operator .subtraction => "Minus"
  | operator .multiplication => "Multiply"
  | operator .division => "Divide"
  | operator sign => sign.storedName
  | percent => "Percent"
  | between => "Between"
  | parenthesisOpen => "ParenthesisOpen"
  | parenthesisClose => "ParenthesisClose"
  | separator => "ValueSeparator"

/-- A mark, stored. -/
def toDatum (mark : Mark) : Datum :=
  .name mark.storedName

/-- A stored mark. -/
def ofDatum? : Datum → Option Mark :=
  Datum.choice? all storedName

end Mark

namespace LeafKind

/-- A kind of leaf, stored. -/
def form : LeafKind → Datum.KindForm
  | .number value => ("Number", .float value)
  | .text value => ("Text", .text value)
  | .boolean value => ("Boolean", .boolean value)
  | .error kind => ("Error", kind.toDatum)
  | .date value => ("Date", value.toDatum)
  | .dateTime value => ("DateTime", value.toDatum)
  | .time value => ("Time", value.toDatum)
  | .cell target => ("CellReference", target.toDatum)
  | .label target => ("Label", target.toDatum)
  | .functionName name => ("FunctionName", .text name)
  | .mark sign => ("Symbol", sign.toDatum)
  | .blank => ("Whitespace", .null)

/-- A stored kind of leaf. -/
def ofForm? : Datum.KindForm → Option LeafKind
  | ("Number", value) => value.float?.map .number
  | ("Text", value) => value.text?.map .text
  | ("Boolean", value) => value.boolean?.map .boolean
  | ("Error", kind) => (CellErrorKind.ofDatum? kind).map .error
  | ("Date", value) => (Date.ofDatum? value).map .date
  | ("DateTime", value) => (DateTime.ofDatum? value).map .dateTime
  | ("Time", value) => (TimeOfDay.ofDatum? value).map .time
  | ("CellReference", target) => (Cell.ofDatum? target).map .cell
  | ("Label", target) => (Label.ofDatum? target).map .label
  | ("FunctionName", name) => name.text?.map .functionName
  | ("Symbol", sign) => (Mark.ofDatum? sign).map .mark
  | ("Whitespace", .null) => some .blank
  | _ => none

end LeafKind

namespace ParentKind

/-- The kinds of inner nodes that hold nothing. -/
def plain : List ParentKind :=
  [expression, group, negative, percentage, range, call]

/-- A kind of inner node, stored. -/
def form : ParentKind → Datum.KindForm
  | expression => ("Expression", .null)
  | group => ("Group", .null)
  | negative => ("Negative", .null)
  | percentage => ("Percentage", .null)
  | binary operator => ("Binary", operator.toDatum)
  | range => ("Range", .null)
  | call => ("FunctionCall", .null)

/-- A stored kind of inner node. -/
def ofForm? : Datum.KindForm → Option ParentKind
  | ("Binary", operator) => (Operator.ofDatum? operator).map binary
  | (name, .null) => plain.find? fun kind => kind.form.1 = name
  | _ => none

end ParentKind

namespace Token

mutual

/-- A tree, stored. -/
def toDatum : Token → Datum
  | .leaf kind text => .ofLeaf kind.form text
  | .parent kind children text => .ofParent kind.form (toData children) text

/-- Trees, stored. -/
def toData : List Token → List Datum
  | [] => []
  | token :: tokens => token.toDatum :: toData tokens

end

/-- How trees are read back. -/
def reader : Datum.NodeReader LeafKind ParentKind Token :=
  ⟨LeafKind.ofForm?, ParentKind.ofForm?, leaf, parent⟩

/-- A stored tree. -/
def ofDatum? : Datum → Option Token :=
  reader.node?

end Token

namespace Expression

mutual

/-- An expression, stored. -/
def toDatum : Expression → Datum
  | .number value => .tagged "Number" (.float value)
  | .text value => .tagged "Text" (.text value)
  | .boolean value => .tagged "Boolean" (.boolean value)
  | .date value => .tagged "Date" value.toDatum
  | .dateTime value => .tagged "DateTime" value.toDatum
  | .time value => .tagged "Time" value.toDatum
  | .error kind => .tagged "Error" kind.toDatum
  | .reference selection => .tagged "Reference" selection.toDatum
  | .negative operand => .tagged "Negative" operand.toDatum
  | .percentage operand => .tagged "Percentage" operand.toDatum
  | .binary operator left right =>
    .tagged "Binary" (.record
      [("op", operator.toDatum), ("left", left.toDatum), ("right", right.toDatum)])
  | .call name arguments =>
    .tagged "Call" (.record [("name", .text name), ("args", .list (toData arguments))])

/-- Expressions, stored. -/
def toData : List Expression → List Datum
  | [] => []
  | e :: es => e.toDatum :: toData es

end

/-- An expression without operands, read back from its case. -/
def atom? (case : String) (content : Datum) : Option Expression :=
  match case with
  | "Number" => content.float?.map .number
  | "Text" => content.text?.map .text
  | "Boolean" => content.boolean?.map .boolean
  | "Date" => (Date.ofDatum? content).map .date
  | "DateTime" => (DateTime.ofDatum? content).map .dateTime
  | "Time" => (TimeOfDay.ofDatum? content).map .time
  | "Error" => (CellErrorKind.ofDatum? content).map .error
  | "Reference" => (Selection.ofDatum? content).map .reference
  | _ => none

mutual

/-- A stored expression. -/
def ofDatum? (datum : Datum) : Option Expression :=
  match _h : datum.case? with
  | none => none
  | some (case, content) =>
    if case = "Negative" then
      (ofDatum? content).map .negative
    else if case = "Percentage" then
      (ofDatum? content).map .percentage
    else if case = "Binary" then
      match _h' : content.fields? ["op", "left", "right"] with
      | some [operator, left, right] => do
        return .binary (← Operator.ofDatum? operator) (← ofDatum? left) (← ofDatum? right)
      | _ => none
    else if case = "Call" then
      match _h' : content.fields? ["name", "args"] with
      | some [name, .list items] => do return .call (← name.text?) (← ofData? items)
      | _ => none
    else
      atom? case content
termination_by sizeOf datum
decreasing_by
  · exact Datum.sizeOf_case?_lt ‹_›
  · exact Datum.sizeOf_case?_lt ‹_›
  · exact Nat.lt_trans (Datum.sizeOf_fields?_lt ‹_› (by simp)) (Datum.sizeOf_case?_lt ‹_›)
  · exact Nat.lt_trans (Datum.sizeOf_fields?_lt ‹_› (by simp)) (Datum.sizeOf_case?_lt ‹_›)
  · have hitems : sizeOf (Datum.list items) < sizeOf content :=
      Datum.sizeOf_fields?_lt ‹_› (by simp)
    have hcontent := Datum.sizeOf_case?_lt ‹_›
    simp only [Datum.list.sizeOf_spec] at hitems
    omega

/-- Stored expressions. -/
def ofData? : List Datum → Option (List Expression)
  | [] => some []
  | item :: items => do return (← ofDatum? item) :: (← ofData? items)
termination_by items => sizeOf items

end

end Expression

/-- The fields of a formula that are there. -/
def fieldOf (name : String) (toDatum : α → Datum) : Option α → List (String × Datum)
  | some a => [(name, toDatum a)]
  | none => []

/-- A formula, stored. -/
def toDatum (formula : Formula) : Datum :=
  .record (fieldOf "text" .text formula.stored ++ fieldOf "token" Token.toDatum formula.token
    ++ fieldOf "expression" Expression.toDatum formula.expression
    ++ fieldOf "value" Value.toDatum formula.value)

/-- The names of the fields of a formula. -/
def fieldNames : List String :=
  ["text", "token", "expression", "value"]

/-- A list of the contents of a formula's fields, those at its end that are
missing made null. `fields?` would refuse a shorter list. -/
def filled : Datum → Datum
  | .list items => .list (items ++ List.replicate (fieldNames.length - items.length) .null)
  | datum => datum

/-- A stored formula. -/
def ofDatum? (datum : Datum) : Option Formula :=
  match (filled datum).fields? fieldNames with
  | some [text, token, expression, value] => do
    return ⟨← text.option? Datum.text?, ← token.option? Token.ofDatum?,
      ← expression.option? Expression.ofDatum?, ← value.option? Value.ofDatum?⟩
  | _ => none

end Formula

end Worksheet
