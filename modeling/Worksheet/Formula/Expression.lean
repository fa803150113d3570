import Worksheet.Formula.Token
import Worksheet.Number.Decimal
import Worksheet.Value.Basic

/-!
# Expressions

An expression is a formula tree without what only shapes it: groups, blanks and
marks are gone, and two cells around a colon are one range. `Token.expression?`
takes a tree to its expression, whether the tree was read from a text or not;
`Expression.render` writes an expression as a formula without the equals sign,
with parentheses only where the priorities of the operators ask for them.
-/

namespace Worksheet.Formula

/-- An expression. -/
inductive Expression where
  | number (value : Float)
  | text (value : List Char)
  | boolean (value : Bool)
  | date (value : Date)
  | dateTime (value : DateTime)
  | time (value : TimeOfDay)
  | error (kind : CellErrorKind)
  | reference (selection : Selection)
  | negative (operand : Expression)
  | percentage (operand : Expression)
  | binary (operator : Operator) (left right : Expression)
  | call (name : List Char) (arguments : List Expression)

namespace Expression

mutual

/-- Two expressions are equal when they are built alike from equal parts;
numbers compare as numbers and labels without regard to case. -/
protected def beq : Expression → Expression → Bool
  | .number a, .number b => a == b
  | .text a, .text b => a == b
  | .boolean a, .boolean b => a == b
  | .date a, .date b => a == b
  | .dateTime a, .dateTime b => a == b
  | .time a, .time b => a == b
  | .error a, .error b => a == b
  | .reference a, .reference b => a == b
  | .negative a, .negative b => Expression.beq a b
  | .percentage a, .percentage b => Expression.beq a b
  | .binary operator left right, .binary operator' left' right' =>
    operator == operator' && Expression.beq left left' && Expression.beq right right'
  | .call name arguments, .call name' arguments' =>
    name == name' && Expression.beqAll arguments arguments'
  | _, _ => false

/-- Two lists of expressions are equal when their members are, in order. -/
protected def beqAll : List Expression → List Expression → Bool
  | [], [] => true
  | e :: es, e' :: es' => Expression.beq e e' && Expression.beqAll es es'
  | _, _ => false

end

instance : BEq Expression := ⟨Expression.beq⟩

end Expression

/-! ## From trees to expressions -/

/-- An operand of a node, and the expression it comes to. -/
abbrev Operand : Type :=
  Token × Except FormulaError Expression

/-- The expression of a node with exactly one operand. -/
def expressionOfOne (text : List Char) (place : Place) (wrap : Expression → Expression) :
    List Operand → Except FormulaError Expression
  | [] => .error (.unexpectedToken text place)
  | (_, .error e) :: _ => .error e
  | [(_, .ok operand)] => .ok (wrap operand)
  | (_, .ok _) :: (extra, _) :: _ => .error (.unexpectedToken extra.text .expression)

/-- The expression of a node with exactly two operands. -/
def expressionOfTwo (text : List Char) (wrap : Expression → Expression → Expression) :
    List Operand → Except FormulaError Expression
  | [] => .error (.unexpectedToken text .binary)
  | (_, .error e) :: _ => .error e
  | (_, .ok left) :: operands =>
    match operands with
    | [] => .error (.unexpectedToken text .binary)
    | (_, .error e) :: _ => .error e
    | [(_, .ok right)] => .ok (wrap left right)
    | (_, .ok _) :: (extra, _) :: _ => .error (.unexpectedToken extra.text .expression)

/-- The cell a node names as the corner of a range. -/
def Token.corner? : Token → Except FormulaError Cell
  | .leaf (.cell target) _ => .ok target
  | token => .error (.unexpectedToken token.text .range)

/-- The expression of a range with exactly two corners. -/
def expressionOfRange (text : List Char) : List Operand → Except FormulaError Expression
  | [] => .error (.unexpectedToken text .range)
  | (first, _) :: operands =>
    match first.corner? with
    | .error e => .error e
    | .ok begins =>
      match operands with
      | [] => .error (.unexpectedToken text .range)
      | (last, _) :: operands =>
        match last.corner? with
        | .error e => .error e
        | .ok ends =>
          match operands with
          | [] => .ok (.reference (.range (.spanning begins ends)))
          | (extra, _) :: _ => .error (.unexpectedToken extra.text .expression)

/-- The expressions of all operands, or the first error among them. -/
def expressionsOf : List Operand → Except FormulaError (List Expression)
  | [] => .ok []
  | (_, .error e) :: _ => .error e
  | (_, .ok operand) :: operands => (expressionsOf operands).map (operand :: ·)

/-- The expression of a call: the name of the function comes first. -/
def expressionOfCall (text : List Char) : List Operand → Except FormulaError Expression
  | [] => .error (.unexpectedToken text .call)
  | (.leaf (.functionName name) _, _) :: operands => (expressionsOf operands).map (.call name)
  | (token, _) :: _ => .error (.unexpectedToken token.text .call)

/-- The expression of an inner node with a text and some operands. A node with
too few or too many of them is refused, which no tree read from a text is. -/
def ParentKind.expression? (kind : ParentKind) (text : List Char) (operands : List Operand) :
    Except FormulaError Expression :=
  match kind with
  | .expression | .group => expressionOfOne text .expression id operands
  | .negative => expressionOfOne text .negative .negative operands
  | .percentage => expressionOfOne text .percentage .percentage operands
  | .binary operator => expressionOfTwo text (.binary operator) operands
  | .range => expressionOfRange text operands
  | .call => expressionOfCall text operands

/-- The expression of a leaf; names of functions, marks and blanks have none. -/
def LeafKind.expression? (kind : LeafKind) (text : List Char) : Except FormulaError Expression :=
  match kind with
  | .number value => .ok (.number value)
  | .text value => .ok (.text value)
  | .boolean value => .ok (.boolean value)
  | .error kind => .ok (.error kind)
  | .date value => .ok (.date value)
  | .dateTime value => .ok (.dateTime value)
  | .time value => .ok (.time value)
  | .cell target => .ok (.reference (.cell target))
  | .label target => .ok (.reference (.label target))
  | .functionName _ | .mark _ | .blank => .error (.unexpectedToken text .expression)

mutual

/-- **The expression of a tree**, from the leaves up. Nodes that stand for
nothing (`Token.isNoise`) are left out among the operands of the node above. -/
def Token.expression? : Token → Except FormulaError Expression
  | .leaf kind text => kind.expression? text
  | .parent kind children text => kind.expression? text (operands children)

/-- The nodes that stand for something, with their expressions. -/
def operands : List Token → List Operand
  | [] => []
  | token :: tokens =>
    if token.isNoise then operands tokens else (token, token.expression?) :: operands tokens

end

/-! ## Writing expressions -/

namespace Expression

/-- How tightly a negative operand binds. -/
def negativePriority : Nat := Operator.maxPriority + 1

/-- How tightly a percentage binds. -/
def percentagePriority : Nat := negativePriority + 1

/-- **How tightly an expression holds together.** What stands below a node is
written in parentheses by `enclose` when it holds together less tightly than the
node asks for. -/
def priority : Expression → Nat
  | .binary operator _ _ => operator.priority
  | .negative _ => negativePriority
  | .percentage _ => percentagePriority
  | _ => percentagePriority + 1

/-- A text, in parentheses if need be. -/
def enclose (needed : Bool) (text : List Char) : List Char :=
  if needed then '(' :: text ++ [')'] else text

/-- A text between quotation marks, those inside it doubled. -/
def renderText (value : List Char) : List Char :=
  '"' :: value.flatMap (fun c => if c = '"' then ['"', '"'] else [c]) ++ ['"']

mutual

/-- **An expression as a formula** without its equals sign. `Token.ofFormula?`
reads the text back, for the expressions that a text can spell. -/
def render : Expression → List Char
  | .number value => Number.plainText value
  | .text value => renderText value
  | .boolean value => Value.booleanText value
  | .date value => value.text
  | .dateTime value => value.textWith ' '
  | .time value => value.text
  | .error kind => kind.text
  | .reference selection => selection.text
  | .negative operand => '-' :: enclose (operand.priority < negativePriority) operand.render
  | .percentage operand => enclose (operand.priority < percentagePriority) operand.render ++ ['%']
  | .binary operator left right =>
    enclose (left.priority < operator.priority) left.render ++ operator.text
      ++ enclose (right.priority ≤ operator.priority) right.render
  | .call name arguments => name ++ '(' :: renderArguments arguments ++ [')']

/-- Expressions separated by commas. -/
def renderArguments : List Expression → List Char
  | [] => []
  | [argument] => argument.render
  | argument :: arguments => argument.render ++ ',' :: renderArguments arguments

end

end Expression

end Worksheet.Formula
