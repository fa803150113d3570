import Worksheet.Formula.Entry
import Worksheet.Formula.Evaluation

/-!
# Formulas

A formula moves from a text to a tree, from there to an expression and on to a
value. Each step keeps what came before, and a new text, tree or expression
drops what was derived from the old one. A text is not kept beside a tree that
gives it back.

Setting what is there already changes nothing. What is there is compared as
values are: with a number that is NaN in it, it is never there already.
-/

namespace Worksheet

open Formula in
/-- **A formula and how far it has come.** Each part is there only once it was
found or set; `setText`, `setToken`, `setExpression` and `setValue` drop the
parts behind the one they set. -/
structure Formula where
  /-- The text, unless the tree gives it. -/
  stored : Option (List Char)
  /-- The tree. -/
  token : Option Token
  /-- The expression. -/
  expression : Option Expression
  /-- The value. -/
  value : Option Value

namespace Formula

/-- The formula of a cell that holds nothing. -/
def empty : Formula :=
  ⟨none, none, none, none⟩

/-- The longest text of a formula, in characters. -/
def maxLength : Nat := 8192

/-- The text of a formula: the one that is kept, or else that of the tree. -/
def text (formula : Formula) : List Char :=
  match formula.stored, formula.token with
  | some text, _ => text
  | none, some token => token.text
  | none, none => []

/-- Whether a formula holds nothing at all. -/
def isEmpty (formula : Formula) : Bool :=
  formula.stored.isNone && formula.token.isNone && formula.expression.isNone
    && formula.value.isNone

/-- The fault of a text that is too long. -/
def lengthFault? (text : List Char) : Option FormulaError :=
  if maxLength < text.length then some (.tooLong text.length maxLength) else none

/-- The formula with another text, and nothing else. -/
def setText (formula : Formula) (text : List Char) : Except FormulaError Formula :=
  match lengthFault? text with
  | some fault => .error fault
  | none =>
    if formula.text = text then .ok formula
    else .ok { empty with stored := if text.isEmpty then none else some text }

/-- The text that is kept beside a tree: none when the tree spells it, so that
`Formula.text` reads it off the tree. -/
def keptText (stored : Option (List Char)) (token : Option Token) : Option (List Char) :=
  if stored.isSome && stored == token.map Token.text then none else stored

/-- The formula with another tree, or with none; expression and value are
dropped. -/
def setToken (formula : Formula) (token : Option Token) : Except FormulaError Formula :=
  if formula.token == token then .ok formula
  else
    match token.bind fun token => lengthFault? token.text with
    | some fault => .error fault
    | none => .ok { empty with stored := keptText formula.stored token, token }

/-- The formula with another expression, or with none; the value is dropped. -/
def setExpression (formula : Formula) (expression : Option Expression) : Formula :=
  if formula.expression == expression then formula
  else { formula with expression, value := none }

/-- The formula with another value, or with none. -/
def setValue (formula : Formula) (value : Option Value) : Formula :=
  if formula.value == value then formula else { formula with value }

/-- The formula without expression and value. -/
def clear (formula : Formula) : Formula :=
  { formula with expression := none, value := none }

/-- **The formula with its text read**, unless that is done or there is none.
The tree is that of the entry (`Token.ofEntry?`), which need not start with an
equals sign. -/
def parse (reader : Reader) (formula : Formula) : Except FormulaError Formula :=
  if formula.token.isSome || formula.text.isEmpty then .ok formula
  else
    match Token.ofEntry? reader formula.text with
    | .error e => .error (.badSyntax e)
    | .ok token => formula.setToken (some token)

/-- The formula with its tree taken to an expression, unless that is done or
there is none. -/
def reduce (formula : Formula) : Except FormulaError Formula :=
  match formula.expression, formula.token with
  | none, some token =>
    match token.expression? with
    | .error e => .error e
    | .ok expression => .ok (formula.setExpression (some expression))
  | _, _ => .ok formula

/-- The value a formula's expression comes to; without one it is nothing. -/
def result (surroundings : Surroundings) (formula : Formula) : Value :=
  match formula.expression with
  | some expression => expression.evaluate surroundings
  | none => .empty

/-- **The formula with its value**, after reading and reducing it as far as that
is not done. The value is found again whenever this is called, in the
surroundings given. -/
def evaluate (reader : Reader) (surroundings : Surroundings) (formula : Formula) :
    Except FormulaError Formula :=
  match formula.parse reader with
  | .error e => .error e
  | .ok parsed =>
    match parsed.reduce with
    | .error e => .error e
    | .ok reduced => .ok (reduced.setValue (some (reduced.result surroundings)))

/-- The value of an entry by the standard patterns, with no references and no
functions. -/
def evaluateText (text : List Char) : Except FormulaError Value :=
  match empty.setText text with
  | .error e => .error e
  | .ok formula =>
    match formula.evaluate .standard .standard with
    | .error e => .error e
    | .ok formula => .ok (formula.value.getD .empty)

end Formula

end Worksheet
