import Worksheet.Convert
import Worksheet.Formula.Expression

/-!
# Surroundings, and what is asked of them

An expression is evaluated in `Surroundings`, which know what references stand
for, what functions return and which texts are numbers. What is computed with
their help is a tree of questions, `Asking`: it is done, or it asks one `Query`
and goes on with the answer, whatever that is. There is no other way for it to
learn anything about its surroundings.

Questions are put to some surroundings by `Asking.run`, which answers one after
the other and writes down what it was asked. That record, the `queries` of an
`Evaluation`, is not kept by the computation itself: an answer is used exactly
where a query is recorded.
-/

namespace Worksheet.Formula

/-- What an expression is evaluated in. -/
structure Surroundings where
  /-- What a reference stands for. -/
  reference : Selection → Value
  /-- What a function returns for some arguments. -/
  call : List Char → List Value → Value
  /-- The number a text is. -/
  textNumber? : List Char → Option Float

/-- Something asked of the surroundings. -/
inductive Query where
  | reference (selection : Selection)
  | call (name : List Char) (arguments : List Value)
  | textNumber (text : List Char)

/-- What a query is answered with. -/
def Query.Answer : Query → Type
  | .reference _ | .call .. => Value
  | .textNumber _ => Option Float

namespace Surroundings

/-- A reference that stands for nothing. -/
def noReference (selection : Selection) : Value :=
  .error (.because .reference s!"unresolved reference {String.ofList selection.text}")

/-- A function that is not known. -/
def noFunction (name : List Char) : Value :=
  .error (.because .name s!"unknown function {String.ofList name}")

/-- The number a text is by the standard patterns, blanks around it left aside. -/
def standardNumber? (text : List Char) : Option Float :=
  Converter.standard.numberReader.read? Converter.standard.locale.numbers (Text.trim text)

/-- Surroundings with no references and no functions. -/
def standard : Surroundings where
  reference := noReference
  call name _ := noFunction name
  textNumber? := standardNumber?

/-- The answer to a query. -/
def answer (surroundings : Surroundings) : (query : Query) → query.Answer
  | .reference selection => surroundings.reference selection
  | .call name arguments => surroundings.call name arguments
  | .textNumber text => surroundings.textNumber? text

end Surroundings

/-- **A computation that asks.** It has come to its result, or asks a query and
goes on with the answer, in a way that may depend on it. -/
inductive Asking (α : Type) where
  | done (result : α)
  | ask (query : Query) (next : query.Answer → Asking α)

/-- What some computation comes to in some surroundings, and what is asked on
the way there. -/
structure Evaluation (α : Type) where
  /-- The result. -/
  value : α
  /-- What was asked, in order. -/
  queries : List Query

namespace Asking

variable {α β : Type}

/-- One computation after another, which may depend on the result of the first. -/
def bind : Asking α → (α → Asking β) → Asking β
  | done result, next => next result
  | ask query following, next => ask query fun answer => (following answer).bind next

instance : Monad Asking where
  pure := done
  bind := bind

/-- **Asking some surroundings.** Every query is answered when it is asked, and
recorded. -/
def run (surroundings : Surroundings) : Asking α → Evaluation α
  | done result => ⟨result, []⟩
  | ask query next =>
    let ⟨value, queries⟩ := (next (surroundings.answer query)).run surroundings
    ⟨value, query :: queries⟩

variable (surroundings : Surroundings)

/-- Where one computation follows another, so does what it asks, and it is the
one for the result that the first has in these very surroundings. -/
theorem run_bind (first : Asking α) (next : α → Asking β) :
    (first >>= next).run surroundings =
      ⟨((next (first.run surroundings).value).run surroundings).value,
        (first.run surroundings).queries ++
          ((next (first.run surroundings).value).run surroundings).queries⟩ := by
  induction first with
  | done result => rfl
  | ask query following ih =>
    show Evaluation.mk ((following _ >>= next).run surroundings).value
      (query :: ((following _ >>= next).run surroundings).queries) = _
    rw [ih]
    rfl

@[simp]
theorem value_run_bind (first : Asking α) (next : α → Asking β) :
    ((first >>= next).run surroundings).value =
      ((next (first.run surroundings).value).run surroundings).value := by
  rw [run_bind]

@[simp]
theorem queries_run_bind (first : Asking α) (next : α → Asking β) :
    ((first >>= next).run surroundings).queries =
      (first.run surroundings).queries ++
        ((next (first.run surroundings).value).run surroundings).queries := by
  rw [run_bind]

end Asking

end Worksheet.Formula
