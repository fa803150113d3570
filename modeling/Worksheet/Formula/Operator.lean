import Worksheet.Text.Basic

/-!
# Operators and marks of formulas

A formula has eleven operators with two operands. They bind in four strengths:
comparisons weakest, then sums, then products, then powers. A mark is whatever
stands between the operands: the sign of an operator, the percent sign, the
colon of a range, a parenthesis or the comma between arguments.
-/

namespace Worksheet.Formula

/-- The operators with two operands. -/
inductive Operator where
  | addition
  | subtraction
  | multiplication
  | division
  | power
  | equal
  | notEqual
  | greater
  | greaterEqual
  | less
  | lessEqual
  deriving DecidableEq, Repr

namespace Operator

/-- How tightly an operator binds. -/
def priority : Operator → Nat
  | equal | notEqual | greater | greaterEqual | less | lessEqual => 1
  | addition | subtraction => 2
  | multiplication | division => 3
  | power => 4

/-- The strongest binding of an operator. -/
def maxPriority : Nat := 4

theorem priority_le_maxPriority (operator : Operator) : operator.priority ≤ maxPriority := by
  cases operator <;> decide

theorem priority_pos (operator : Operator) : 0 < operator.priority := by
  cases operator <;> decide

/-- Whether an operator compares its operands. -/
def isComparison (operator : Operator) : Bool :=
  operator.priority == 1

end Operator

/-- What can stand between the operands of a formula. -/
inductive Mark where
  /-- The sign of an operator. The minus is also the sign of a negative operand,
  and the equals sign also opens a formula. -/
  | operator (sign : Operator)
  | percent
  /-- The colon of a range. -/
  | between
  | parenthesisOpen
  | parenthesisClose
  /-- The comma between arguments. -/
  | separator
  deriving DecidableEq, Repr

namespace Mark

/-- Every mark, those that begin another after it. -/
def all : List Mark :=
  [operator .greaterEqual, operator .lessEqual, operator .notEqual, operator .addition,
    operator .subtraction, operator .multiplication, operator .division, operator .power, percent,
    operator .equal, operator .greater, operator .less, between, parenthesisOpen, parenthesisClose,
    separator]

/-- How a mark is written. -/
def text : Mark → List Char
  | operator .addition => ['+']
  | operator .subtraction => ['-']
  | operator .multiplication => ['*']
  | operator .division => ['/']
  | operator .power => ['^']
  | operator .equal => ['=']
  | operator .notEqual => ['<', '>']
  | operator .greater => ['>']
  | operator .greaterEqual => ['>', '=']
  | operator .less => ['<']
  | operator .lessEqual => ['<', '=']
  | percent => ['%']
  | between => [':']
  | parenthesisOpen => ['(']
  | parenthesisClose => [')']
  | separator => [',']

/-- Every mark is written with at least one character. -/
theorem text_ne_nil (mark : Mark) : mark.text ≠ [] := by
  cases mark with
  | operator sign => cases sign <;> simp [text]
  | _ => simp [text]

/-- The longest mark at the start of a text, and what follows it. -/
def scan? (input : List Char) : Option (Mark × List Char) :=
  all.findSome? fun mark => (Text.drop? mark.text input).map (mark, ·)

/-- The operator a mark is the sign of. -/
def operator? : Mark → Option Operator
  | operator sign => some sign
  | _ => none

/-- A mark and what follows it make up the text. -/
theorem eq_append_of_scan? {mark : Mark} {input rest : List Char}
    (h : scan? input = some (mark, rest)) : input = mark.text ++ rest := by
  obtain ⟨found, -, hfound⟩ := List.exists_of_findSome?_eq_some h
  obtain ⟨tail, htail, heq⟩ := Option.map_eq_some_iff.1 hfound
  obtain ⟨rfl, rfl⟩ := Prod.mk.inj heq
  exact Text.drop?_eq_some_iff.1 htail

end Mark

/-- How an operator is written. -/
def Operator.text (operator : Operator) : List Char :=
  (Mark.operator operator).text

end Worksheet.Formula
