import Worksheet.Formula.Evaluation

/-!
# The value of an expression by its parts

An expression is evaluated by asking its surroundings (`Expression.asks`), and
its value is what the run of its questions comes to. Here that is said without
questions: the value of an expression is made of the values of its operands and
of nothing else about them (`evaluate_negative`, `evaluate_percentage`,
`evaluate_binary`, `evaluate_call`). These equations are tagged for `simp`, and
what follows about values uses them and no longer unfolds the evaluation.

An operator passes on the error of an operand, the left one first, before it
looks at anything else (`applyToNumber_of_isError`,
`Operator.apply_of_isError_left`, `Operator.apply_of_isError_right`).
-/

namespace Worksheet.Formula

variable (surroundings : Surroundings)

namespace Expression

/-- Some expressions have the values they have by themselves, one after the
other: what `asksAll` comes to is a map of `evaluate`. -/
theorem value_run_asksAll (expressions : List Expression) :
    ((asksAll expressions).run surroundings).value = expressions.map (evaluate surroundings) := by
  induction expressions with
  | nil => rfl
  | cons e es ih =>
    rw [asksAll, Asking.value_run_bind, Asking.value_run_bind, ih]
    rfl

@[simp]
theorem evaluate_reference (selection : Selection) :
    (reference selection).evaluate surroundings = surroundings.reference selection :=
  rfl

@[simp]
theorem evaluate_negative (operand : Expression) :
    (negative operand).evaluate surroundings =
      applyToNumber surroundings (fun a => -a) (operand.evaluate surroundings) := by
  rw [evaluate, run, asks, Asking.value_run_bind]
  rfl

@[simp]
theorem evaluate_percentage (operand : Expression) :
    (percentage operand).evaluate surroundings =
      applyToNumber surroundings (fun a => a / 100) (operand.evaluate surroundings) := by
  rw [evaluate, run, asks, Asking.value_run_bind]
  rfl

@[simp]
theorem evaluate_binary (operator : Operator) (left right : Expression) :
    (binary operator left right).evaluate surroundings =
      operator.apply surroundings (left.evaluate surroundings) (right.evaluate surroundings) := by
  rw [evaluate, run, asks, Asking.value_run_bind, Asking.value_run_bind]
  rfl

@[simp]
theorem evaluate_call (name : List Char) (arguments : List Expression) :
    (call name arguments).evaluate surroundings =
      surroundings.call name (arguments.map (evaluate surroundings)) := by
  rw [evaluate, run, asks, Asking.value_run_bind, value_run_asksAll]
  rfl

end Expression

/-! ## Errors of operands -/

variable {surroundings}

/-- An operand that is an error is passed on, and the surroundings are not asked
for its number. -/
theorem applyToNumber_of_isError {operand : Value} (f : Float → Float)
    (h : operand.isError = true) : applyToNumber surroundings f operand = operand := by
  cases operand with
  | error => rfl
  | _ => cases h

namespace Operator

/-- A left operand that is an error is passed on, whatever the right one is. -/
theorem apply_of_isError_left (operator : Operator) {left : Value} (right : Value)
    (h : left.isError = true) : operator.apply surroundings left right = left := by
  rw [apply, asks, if_pos h]
  rfl

/-- A right operand that is an error is passed on when the left one is none. -/
theorem apply_of_isError_right (operator : Operator) {left right : Value}
    (hleft : left.isError = false) (h : right.isError = true) :
    operator.apply surroundings left right = right := by
  rw [apply, asks, hleft, if_neg Bool.false_ne_true, if_pos h]
  rfl

/-- Values without an error among them are compared by an operator without
arithmetic. -/
theorem apply_of_arithmetic?_eq_none {operator : Operator} {left right : Value}
    (hleft : left.isError = false) (hright : right.isError = false)
    (h : operator.arithmetic? = none) :
    operator.apply surroundings left right = .boolean (operator.compares left right) := by
  rw [apply, asks, hleft, hright, if_neg Bool.false_ne_true, if_neg Bool.false_ne_true, h]
  rfl

end Operator

end Worksheet.Formula
