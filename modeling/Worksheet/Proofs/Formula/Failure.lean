import Worksheet.Proofs.Formula.Evaluation

/-!
# Errors reach the whole expression

An error is never lost on its way up through operators. The way down from an
expression to one of its operands, or an operand of that, passes left operands
beside it (`Expression.Exposes`): these are evaluated before, and the first
error among them is the one that comes out. When there is none, the error below
comes out as it is (`Expression.evaluate_of_exposes`).

The arguments of a call are not on such a way. What a function makes of an error
is its own affair.
-/

namespace Worksheet.Formula.Expression

/-- **An expression exposes a part of it** when the part is the expression, or
its operand, or an operand of that, and so on. Beside the way to the part are
the left operands of those operators whose right operand it passes, the
outermost first. -/
inductive Exposes : Expression → List Expression → Expression → Prop where
  /-- Itself. -/
  | refl (part : Expression) : Exposes part [] part
  /-- What its operand exposes. -/
  | negative {operand : Expression} {beside : List Expression} {part : Expression} :
    Exposes operand beside part → Exposes (.negative operand) beside part
  /-- What its operand exposes. -/
  | percentage {operand : Expression} {beside : List Expression} {part : Expression} :
    Exposes operand beside part → Exposes (.percentage operand) beside part
  /-- What its left operand exposes. -/
  | left (operator : Operator) {left : Expression} (right : Expression) {beside : List Expression}
    {part : Expression} :
    Exposes left beside part → Exposes (.binary operator left right) beside part
  /-- What its right operand exposes; the left operand is beside the way. -/
  | right (operator : Operator) (left : Expression) {right : Expression} {beside : List Expression}
    {part : Expression} :
    Exposes right beside part → Exposes (.binary operator left right) (left :: beside) part

/-- The value of the first expression in a list that fails, or another value if
none does. -/
def firstFailure (surroundings : Surroundings) (beside : List Expression) (otherwise : Value) :
    Value :=
  ((beside.map (evaluate surroundings)).find? Value.isError).getD otherwise

variable {surroundings : Surroundings} {e part : Expression} {beside : List Expression}
  {otherwise : Value}

theorem isError_firstFailure (h : otherwise.isError = true) :
    (firstFailure surroundings beside otherwise).isError = true := by
  unfold firstFailure
  cases hfound : (beside.map (evaluate surroundings)).find? Value.isError with
  | none => exact h
  | some failure => exact List.find?_some hfound

theorem firstFailure_eq (h : ∀ left ∈ beside, (left.evaluate surroundings).isError = false) :
    firstFailure surroundings beside otherwise = otherwise := by
  have hnone : (beside.map (evaluate surroundings)).find? Value.isError = none := by
    rw [List.find?_eq_none, List.forall_mem_map]
    intro left hleft
    rw [h left hleft]
    exact Bool.false_ne_true
  rw [firstFailure, hnone, Option.getD_none]

/-- A failure at the front is the first one, and otherwise the rest decides. -/
theorem firstFailure_cons (left : Expression) :
    firstFailure surroundings (left :: beside) otherwise =
      if (left.evaluate surroundings).isError then left.evaluate surroundings
      else firstFailure surroundings beside otherwise := by
  unfold firstFailure
  rw [List.map_cons, List.find?_cons]
  cases (left.evaluate surroundings).isError <;> rfl

/-- **An expression has the error of a part it exposes**, unless something
beside the way to it fails: then the first failure there comes out. By induction
on the way, with the lemmas on errors of operands for its steps. -/
theorem evaluate_of_exposes (h : Exposes e beside part)
    (hpart : (part.evaluate surroundings).isError = true) :
    e.evaluate surroundings = firstFailure surroundings beside (part.evaluate surroundings) := by
  -- on the way up every operand on it is a failure, so that operators have none of their own
  induction h with
  | refl part => rfl
  | negative _ ih =>
    rw [evaluate_negative, ih hpart]
    exact applyToNumber_of_isError _ (isError_firstFailure hpart)
  | percentage _ ih =>
    rw [evaluate_percentage, ih hpart]
    exact applyToNumber_of_isError _ (isError_firstFailure hpart)
  | left operator right _ ih =>
    rw [evaluate_binary, ih hpart]
    exact operator.apply_of_isError_left _ (isError_firstFailure hpart)
  | right operator left _ ih =>
    rw [evaluate_binary, ih hpart, firstFailure_cons]
    split
    · exact operator.apply_of_isError_left _ ‹_›
    · exact operator.apply_of_isError_right (Bool.eq_false_iff.2 ‹_›) (isError_firstFailure hpart)

/-- **An error of a part reaches the whole expression.** The expression fails
when a part it exposes does; and it does so with the very error of the part,
code and explanation, when no left operand beside the way to the part fails. -/
theorem error_of_exposes {error : CellError} (h : Exposes e beside part)
    (hpart : part.evaluate surroundings = .error error) :
    (∃ first, e.evaluate surroundings = .error first) ∧
      ((∀ left ∈ beside, (left.evaluate surroundings).isError = false) →
        e.evaluate surroundings = .error error) := by
  have hfails : (part.evaluate surroundings).isError = true := by
    rw [hpart]
    rfl
  have hvalue := evaluate_of_exposes h hfails
  refine ⟨?_, fun hbeside => by rw [hvalue, firstFailure_eq hbeside, hpart]⟩
  have hfirst : (e.evaluate surroundings).isError = true := by
    rw [hvalue]
    exact isError_firstFailure hfails
  cases hcases : e.evaluate surroundings with
  | error first => exact ⟨first, rfl⟩
  | _ =>
    rw [hcases] at hfirst
    cases hfirst

/-- `-(1=F()%)` explains that there is no function `F`. -/
theorem error_of_exposes_unknown :
    (∃ first, (negative (binary .equal (number 1) (percentage (call ['F'] [])))).evaluate
        .standard = .error first) ∧
      (negative (binary .equal (number 1) (percentage (call ['F'] [])))).evaluate .standard =
        .error (.because .name "unknown function F") := by
  have hpart : (call ['F'] []).evaluate .standard =
      .error (.because .name "unknown function F") := rfl
  have h := error_of_exposes
    (.negative (.right .equal (number 1) (.percentage (.refl (call ['F'] []))))) hpart
  refine ⟨h.1, h.2 fun left hleft => ?_⟩
  obtain rfl := List.mem_singleton.1 hleft
  rfl

end Worksheet.Formula.Expression
