import Mathlib.Data.List.Basic
import Worksheet.Proofs.Formula.Evaluation

/-!
# What an evaluation asks

The nodes of an expression have an order, from the left to the right and
operands before what is made of them (`Expression.nodes`). Evaluation visits
them in this order, each of them once, and asks at a node what there is to ask
with the values of its operands (`Expression.ownQueries`); this is all it asks,
whatever the answers are (`queries_run`).

References and calls are asked for at their nodes only. What is looked up and
what is called, with how many arguments, can thus be told without evaluating
anything, and an error skips or repeats none of it (`lookups_eq`). Only whether
a text is a number is asked because of values.

That these queries are what a value is made of does not follow from their order.
It is the reason why an evaluation is an `Asking`: the value of a reference is
the answer to the query at its node, that of a call the answer to a query with
the values of the arguments, and two surroundings that answer alike everything
that is asked in one of them cannot be told apart (`Asking.run_congr`).
-/

namespace Worksheet.Formula

/-! ## What is not asked for is not used

Nothing is known of the surroundings but what they answer. So two runs of a
computation are the same as long as the answers are, by induction on the
computation, with no word on which one it is. -/

def Query.HasSameAnswer (first second : Surroundings) (query : Query) : Prop :=
  first.answer query = second.answer query

/-- **What a computation does not ask for it does not use.** Surroundings that
answer everything alike that is asked in the first of them are asked the same,
and the results are the same. The second ones may differ in all that is not
asked. -/
theorem Asking.run_congr {α : Type} {first second : Surroundings} (asking : Asking α)
    (h : ∀ query ∈ (asking.run first).queries, query.HasSameAnswer first second) :
    asking.run first = asking.run second := by
  induction asking with
  | done result => rfl
  | ask query next ih =>
    have hanswer : first.answer query = second.answer query := h query List.mem_cons_self
    -- after the same answer there is the same computation left to run
    have hrest := ih (first.answer query) fun asked hasked =>
      h asked (List.mem_cons_of_mem _ hasked)
    rw [Asking.run, hrest, hanswer]
    rfl

/-! ## The queries of an operator

What an operator asks depends on its operands alone: an error or a comparison
asks nothing, and a text has to be looked up to be a number. -/

/-- What is asked to read a value as a number: whether a text is one, and
nothing else. Values of other kinds are numbers or not by themselves. -/
def numberQueries : Value → List Query
  | .text value => [.textNumber value]
  | _ => []

/-- What is asked to apply an operator to two values, told from the values
alone. An error or a comparison is done without asking; else both operands are
read as numbers. -/
def Operator.queries (operator : Operator) (left right : Value) : List Query :=
  if left.isError || right.isError || operator.isComparison then []
  else numberQueries left ++ numberQueries right

section Own

variable (surroundings : Surroundings)

/-- A computation that goes on without a query asks what it asked. -/
theorem Asking.queries_run_bind_of_nil {α β : Type} {next : α → Asking β}
    (h : ∀ value, ((next value).run surroundings).queries = []) (first : Asking α) :
    ((first >>= next).run surroundings).queries = (first.run surroundings).queries := by
  rw [Asking.queries_run_bind, h, List.append_nil]

theorem queries_askNumber (value : Value) :
    ((askNumber value).run surroundings).queries = numberQueries value := by
  cases value with
  | text value =>
    show Query.textNumber value :: (Asking.run surroundings _).queries = _
    dsimp only
    split <;> rfl
  | number | empty | error => rfl
  | _ =>
    unfold askNumber
    dsimp only
    split <;> rfl

theorem queries_askApplied (f : Float → Float) (operand : Value) :
    ((askApplied f operand).run surroundings).queries = numberQueries operand := by
  rw [askApplied, Asking.queries_run_bind_of_nil, queries_askNumber]
  intro number
  split <;> rfl

/-- **An operator asks what its operands need**, and `Operator.queries` is no
more than a name for that. The left operand is asked about first, and the right
one even if the left one is no number. -/
theorem Operator.queries_asks (operator : Operator) (left right : Value) :
    ((operator.asks left right).run surroundings).queries = operator.queries left right := by
  unfold asks queries
  rw [← operator.isNone_arithmetic?]
  cases left.isError with
  | true => rfl
  | false =>
    cases right.isError with
    | true => rfl
    | false =>
      cases operator.arithmetic? with
      | none => rfl
      | some calculate =>
        show (Asking.run surroundings (askNumber left >>= _)).queries = _
        rw [Asking.queries_run_bind, queries_askNumber, Asking.queries_run_bind_of_nil,
          queries_askNumber]
        · rfl
        · intro number
          split
          · rfl
          · split <;> rfl

end Own

/-! ## The nodes of an expression

The queries of an evaluation are those of its nodes, in their order. The order
is that of the expression, although the queries of a node depend on the values
below it. -/

namespace Expression

mutual

/-- **The nodes of an expression**, from the left to the right and operands
first. -/
def nodes : Expression → List Expression
  | .negative operand => operand.nodes ++ [.negative operand]
  | .percentage operand => operand.nodes ++ [.percentage operand]
  | .binary operator left right => left.nodes ++ right.nodes ++ [.binary operator left right]
  | .call name arguments => nodesAll arguments ++ [.call name arguments]
  | e => [e]

def nodesAll : List Expression → List Expression
  | [] => []
  | e :: es => e.nodes ++ nodesAll es

end

/-- **What there is to ask at a node**, in some surroundings, with the values
its operands have there. The operands themselves are nodes before it, and what
they ask is none of its own. -/
def ownQueries (surroundings : Surroundings) : Expression → List Query
  | .reference selection => [.reference selection]
  | .negative operand | .percentage operand => numberQueries (operand.evaluate surroundings)
  | .binary operator left right =>
    operator.queries (left.evaluate surroundings) (right.evaluate surroundings)
  | .call name arguments => [.call name (arguments.map (evaluate surroundings))]
  | _ => []

theorem queries_run_unary (surroundings : Surroundings) (f : Float → Float) (operand : Expression) :
    ((operand.asks >>= askApplied f).run surroundings).queries =
      (operand.run surroundings).queries ++ numberQueries (operand.evaluate surroundings) := by
  rw [Asking.queries_run_bind, queries_askApplied]
  rfl

mutual

/-- **An evaluation asks node by node**, operands first. At each node it asks
what there is to ask (`ownQueries`), so that nothing is skipped or asked twice
on account of an answer. -/
theorem queries_run (surroundings : Surroundings) (e : Expression) :
    (e.run surroundings).queries = e.nodes.flatMap (ownQueries surroundings) := by
  cases e with
  | negative operand | percentage operand =>
    rw [nodes, List.flatMap_append, ← queries_run surroundings operand, List.flatMap_singleton]
    exact queries_run_unary surroundings _ operand
  | binary operator left right =>
    rw [nodes, List.flatMap_append, List.flatMap_append, ← queries_run surroundings left,
      ← queries_run surroundings right, List.flatMap_singleton, run, asks,
      Asking.queries_run_bind, Asking.queries_run_bind, operator.queries_asks, List.append_assoc]
    rfl
  | call name arguments =>
    rw [nodes, List.flatMap_append, ← queries_run_asksAll surroundings arguments,
      List.flatMap_singleton, ownQueries, ← value_run_asksAll, run, asks, Asking.queries_run_bind]
    rfl
  | _ => rfl

theorem queries_run_asksAll (surroundings : Surroundings) (expressions : List Expression) :
    ((asksAll expressions).run surroundings).queries =
      (nodesAll expressions).flatMap (ownQueries surroundings) := by
  cases expressions with
  | nil => rfl
  | cons e es =>
    rw [nodesAll, List.flatMap_append, ← queries_run surroundings e,
      ← queries_run_asksAll surroundings es, asksAll, Asking.queries_run_bind,
      Asking.queries_run_bind_of_nil]
    · rfl
    · exact fun _ => rfl

end

end Expression

/-! ## Lookups and calls

Of the queries at a node only a reference or a call is one by the kind of the
node. So these are the same in any two evaluations, but for the values that the
calls are made with. -/

/-- A lookup of a reference, or a call of a function with a number of arguments:
a `Query` without the values, as far as it can be told from an expression. -/
inductive Lookup where
  | reference (selection : Selection)
  | call (name : List Char) (arity : Nat)

namespace Query

/-- The lookup or call of a query, without the values it is made with. -/
def lookup? : Query → Option Lookup
  | .reference selection => some (.reference selection)
  | .call name arguments => some (.call name arguments.length)
  | .textNumber _ => none

theorem lookup?_of_mem_numberQueries {query : Query} {value : Value}
    (h : query ∈ numberQueries value) : query.lookup? = none := by
  cases value with
  | text value =>
    obtain rfl := List.mem_singleton.1 h
    rfl
  | _ => cases h

theorem lookup?_of_mem_queries {query : Query} {operator : Operator} {left right : Value}
    (h : query ∈ operator.queries left right) : query.lookup? = none := by
  unfold Operator.queries at h
  split at h
  · cases h
  · rcases List.mem_append.1 h with h | h
    · exact lookup?_of_mem_numberQueries h
    · exact lookup?_of_mem_numberQueries h

end Query

namespace Expression

/-- The lookup or call a node is. -/
def lookup? : Expression → Option Lookup
  | .reference selection => some (.reference selection)
  | .call name arguments => some (.call name arguments.length)
  | _ => none

/-- What is asked for at a node that is a reference or a call: a call gets the
values of its arguments, in order. -/
def lookupQuery? (surroundings : Surroundings) : Expression → Option Query
  | .reference selection => some (.reference selection)
  | .call name arguments => some (.call name (arguments.map (evaluate surroundings)))
  | _ => none

/-- The lookups and calls of an evaluation, in order, each call with its
values. -/
def lookupQueries (surroundings : Surroundings) (e : Expression) : List Query :=
  (e.run surroundings).queries.filter fun query => query.lookup?.isSome

/-- The lookups and calls of an evaluation, in order, each call with how many
values it gets. -/
def lookups (surroundings : Surroundings) (e : Expression) : List Lookup :=
  (e.run surroundings).queries.filterMap Query.lookup?

variable (surroundings : Surroundings)

/-- What is looked up at a node is what the node is: of its own queries, those
of its operands being elsewhere, at most one is a lookup. -/
theorem filter_ownQueries (node : Expression) :
    (node.ownQueries surroundings).filter (fun query => query.lookup?.isSome) =
      (node.lookupQuery? surroundings).toList := by
  cases node with
  | negative operand | percentage operand =>
    refine List.filter_eq_nil_iff.2 fun query h => ?_
    rw [Query.lookup?_of_mem_numberQueries h]
    exact Bool.false_ne_true
  | binary operator left right =>
    refine List.filter_eq_nil_iff.2 fun query h => ?_
    rw [Query.lookup?_of_mem_queries h]
    exact Bool.false_ne_true
  | _ => rfl

/-- Values aside, the lookup or call of a node is told by the node. -/
theorem bind_lookupQuery? (node : Expression) :
    (node.lookupQuery? surroundings).bind Query.lookup? = node.lookup? := by
  cases node with
  | call name arguments =>
    show some (Lookup.call name (arguments.map (evaluate surroundings)).length) = _
    rw [List.length_map]
    rfl
  | _ => rfl

/-- **Every reference and every call is asked for once**, in the order of the
nodes, and a call gets what its arguments come to. What `filter_ownQueries` says
of a node holds of all of them. -/
theorem lookupQueries_eq (e : Expression) :
    e.lookupQueries surroundings = e.nodes.filterMap (lookupQuery? surroundings) := by
  rw [lookupQueries, queries_run, List.filter_flatMap, List.filterMap_eq_flatMap_toList]
  exact List.flatMap_congr fun node _ => filter_ownQueries surroundings node

theorem lookups_eq_filterMap (e : Expression) :
    e.lookups surroundings = (e.lookupQueries surroundings).filterMap Query.lookup? := by
  rw [lookups, lookupQueries, List.filterMap_filter]
  congr 1
  funext query
  cases query.lookup? <;> rfl

/-- **What is looked up does not depend on the answers.** The lookups and calls
are those of the nodes, in their order. -/
theorem lookups_eq (e : Expression) : e.lookups surroundings = e.nodes.filterMap lookup? := by
  rw [lookups_eq_filterMap, lookupQueries_eq, List.filterMap_filterMap]
  congr 1
  funext node
  exact bind_lookupQuery? surroundings node

/-- **Two evaluations of an expression look up the same.** Whatever the
surroundings answer, in both of them the references and calls of the expression
are asked for from the left to the right, those within arguments before the
call, each of them once; and a call gets the values of its arguments, in order.

The queries are those that the value is made of. A reference comes to the answer
that its query has, a call to the answer to its name and the values of its
arguments, and an expression has the same value, found with the same queries, in
surroundings that have the same answers to all of them. -/
theorem lookups_of_surroundings (e : Expression) (surroundings surroundings' : Surroundings) :
    e.lookups surroundings = e.lookups surroundings' ∧
      e.lookups surroundings = e.nodes.filterMap lookup? ∧
      e.lookupQueries surroundings = e.nodes.filterMap (lookupQuery? surroundings) ∧
      (∀ selection, (reference selection).evaluate surroundings =
        surroundings.answer (.reference selection)) ∧
      (∀ name arguments, (call name arguments).evaluate surroundings =
        surroundings.answer (.call name (arguments.map (evaluate surroundings)))) ∧
      ((∀ query ∈ (e.run surroundings).queries,
          query.HasSameAnswer surroundings surroundings') →
        e.run surroundings = e.run surroundings') :=
  ⟨(lookups_eq surroundings e).trans (lookups_eq surroundings' e).symm, lookups_eq surroundings e,
    lookupQueries_eq surroundings e, evaluate_reference surroundings, evaluate_call surroundings,
    e.asks.run_congr⟩

end Expression

end Worksheet.Formula
