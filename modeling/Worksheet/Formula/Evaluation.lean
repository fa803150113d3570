import Worksheet.Formula.Comparison
import Worksheet.Formula.Surroundings

/-!
# Evaluating expressions

An expression comes to a value by asking its surroundings (`Expression.asks`),
in a fixed order: operands before operators, the left one first, and arguments
before calls. Failure is a value as well: an error takes the place of the
result, and an operator with an error for an operand has that error for its
result, the left one first. No operator returns an infinity or NaN.

What surroundings there are is of no concern to `Expression.asks`, nor to the
operators that it is made of (`Operator.asks`, `askNumber`). It is put to some
in `Expression.run`, where the value is found and what was asked for it is kept.
-/

namespace Worksheet.Formula

/-- A number as a value, if it is one. -/
def finiteValue (result : Float) : Value :=
  if result.isFinite then .number result else .error (.ofKind .number)

/-- What an operator makes of two numbers, unless it compares its operands.
Nothing is divided by zero, not even by a negative power of it. -/
def Operator.arithmetic? : Operator → Option (Float → Float → Value)
  | .addition => some fun a b => finiteValue (a + b)
  | .subtraction => some fun a b => finiteValue (a - b)
  | .multiplication => some fun a b => finiteValue (a * b)
  | .division => some fun a b =>
    if b == 0 then .error (.ofKind .division) else finiteValue (a / b)
  | .power => some fun a b =>
    if a == 0 && b < 0 then .error (.ofKind .division) else finiteValue (Float.pow a b)
  | .equal | .notEqual | .greater | .greaterEqual | .less | .lessEqual => none

/-- The operators without arithmetic are those that compare. -/
theorem Operator.isNone_arithmetic? (operator : Operator) :
    operator.arithmetic?.isNone = operator.isComparison := by
  cases operator <;> rfl

/-- **A value as a number**, or the error that it is not one. Only a text is
asked about (`Query.textNumber`), and what it is said to be counts if it is a
number and not infinite. -/
def askNumber : Value → Asking (Except CellError Float)
  | .number value => return .ok value
  | .text value =>
    .ask (.textNumber value) fun number =>
      match number.filter Float.isFinite with
      | some number => return .ok number
      | none =>
        return .error (.because .value s!"Cannot convert '{String.ofList value}' to number")
  | .empty => return .ok 0
  | .error value => return .error value
  | value =>
    match value.serial? with
    | some number => return .ok number
    | none => return .error (.ofKind .value)

/-- **What an operator makes of two values.** With an error among them nothing
is asked, and neither is to compare them; otherwise both are taken as numbers by
`askNumber`, the right one also when the left one is none. -/
def Operator.asks (operator : Operator) (left right : Value) : Asking Value :=
  if left.isError then return left
  else if right.isError then return right
  else
    match operator.arithmetic? with
    | none => return .boolean (operator.compares left right)
    | some calculate => do
      let a ← askNumber left
      let b ← askNumber right
      match a with
      | .error e => return .error e
      | .ok a =>
        match b with
        | .error e => return .error e
        | .ok b => return calculate a b

/-- What a function of numbers makes of a value. -/
def askApplied (f : Float → Float) (operand : Value) : Asking Value := do
  match ← askNumber operand with
  | .error e => return .error e
  | .ok a => return finiteValue (f a)

/-- A function of numbers applied to a value. -/
def applyToNumber (surroundings : Surroundings) (f : Float → Float) (operand : Value) : Value :=
  ((askApplied f operand).run surroundings).value

/-- The result of an operator on two values. -/
def Operator.apply (operator : Operator) (surroundings : Surroundings) (left right : Value) :
    Value :=
  ((operator.asks left right).run surroundings).value

namespace Expression

mutual

/-- **The value of an expression**, by asking for what has to be known of the
surroundings: what a reference stands for, what a function returns for the
values of its arguments, what number a text is. -/
def asks : Expression → Asking Value
  | .number value => return .number value
  | .text value => return .text value
  | .boolean value => return .boolean value
  | .date value => return .date value
  | .dateTime value => return .dateTime value
  | .time value => return .time value
  | .error kind => return .error (.ofKind kind)
  | .reference selection => .ask (.reference selection) .done
  | .negative operand => do askApplied (fun a => -a) (← operand.asks)
  | .percentage operand => do askApplied (fun a => a / 100) (← operand.asks)
  | .binary operator left right => do
    let a ← left.asks
    let b ← right.asks
    operator.asks a b
  | .call name arguments => do
    let values ← asksAll arguments
    .ask (.call name values) .done

/-- The values of some expressions, one after the other. -/
def asksAll : List Expression → Asking (List Value)
  | [] => return []
  | e :: es => do
    let value ← e.asks
    let values ← asksAll es
    return value :: values

end

/-- The value of an expression in some surroundings, with what is asked to find
it. -/
def run (surroundings : Surroundings) (e : Expression) : Evaluation Value :=
  e.asks.run surroundings

/-- The value of an expression: the `run` without the record of what was asked. -/
def evaluate (surroundings : Surroundings) (e : Expression) : Value :=
  (e.run surroundings).value

end Expression

end Worksheet.Formula
