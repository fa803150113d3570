import Worksheet.Ebnf.Grammar
import Worksheet.Pattern.Terminal

/-!
# Reading a text by a grammar

The expressions of a grammar are read as instructions: a choice takes the first
alternative that matches, an optional part is taken if it matches, and a
repetition goes on for as long as it matches and moves on. Nothing that matched
is ever taken back for a later part to match.

A rule whose name is that of a section or a bracketed block puts what it read
under a node of that kind; any other rule hands it on.

Rules call one another to a depth that is fixed in advance from the grammar and
the length of the text. A grammar in which no rule starts with itself stays
within it: deeper nesting on the way to a given character would have to go
through some rule twice.
-/

namespace Worksheet.Pattern

/-- **What came of reading a text by an expression**: what matched and what it
left, if anything did, and how far the reading reached whether it did or not. -/
structure Outcome where
  /-- The nodes read and what follows them, if the expression matches. -/
  matched : Option (List Token × List Char)
  /-- How few characters were ever left behind a part that matched, whether or
  not the whole did. -/
  reach : Nat

namespace Outcome

/-- Nothing at the front of a text matches. -/
def fail (input : List Char) : Outcome :=
  ⟨none, input.length⟩

/-- Something matches and leaves a rest. -/
def success (tokens : List Token) (rest : List Char) : Outcome :=
  ⟨some (tokens, rest), rest.length⟩

/-- The same outcome after other parts were tried that reached as far as given. -/
def reaching (outcome : Outcome) (reach : Nat) : Outcome :=
  { outcome with reach := min reach outcome.reach }

/-- The outcome of a further part, after some nodes. -/
def after (tokens : List Token) (reach : Nat) (next : Outcome) : Outcome :=
  ⟨next.matched.map fun (more, rest) => (tokens ++ more, rest), min reach next.reach⟩

end Outcome

/-- A step taken again and again, for as long as it matches and moves on. A step
that matches without moving on ends the repetition. -/
def repeatWhile (step : List Char → Outcome) (input : List Char) : Outcome :=
  match (step input).matched with
  | some (tokens, rest) =>
    if rest.length < input.length then
      (repeatWhile step rest).after tokens (step input).reach
    else ⟨some (tokens, input), (step input).reach⟩
  | none => ⟨some ([], input), (step input).reach⟩
termination_by input.length

mutual

/-- **What comes of reading a text by an expression**, given what comes of
reading it by each rule. Rules are called through `call`, so this recurs on the
expression alone. -/
def evaluate (call : Nat → List Char → Outcome) :
    Ebnf.Expr (Ebnf.Symbol Terminal) → List Char → Outcome
  | .literal text, input =>
    match Text.drop? text input with
    | some rest => .success [.leaf (.textLiteral text) text] rest
    | none => .fail input
  | .symbol (.terminal terminal), input =>
    match terminal.scan? input with
    | some (kind, rest) => .success [.leaf kind (Text.before input rest)] rest
    | none => .fail input
  | .symbol (.rule index), input => call index input
  | .sequence parts, input => evaluateAll call parts input
  | .choice parts, input => evaluateFirst call parts input
  | .optional part, input =>
    let outcome := evaluate call part input
    ⟨some (outcome.matched.getD ([], input)), outcome.reach⟩
  | .repetition part, input => repeatWhile (fun text => evaluate call part text) input

/-- What comes of reading a text by one expression after the other. -/
def evaluateAll (call : Nat → List Char → Outcome) :
    List (Ebnf.Expr (Ebnf.Symbol Terminal)) → List Char → Outcome
  | [], input => .success [] input
  | part :: parts, input =>
    let outcome := evaluate call part input
    match outcome.matched with
    | some (tokens, rest) => (evaluateAll call parts rest).after tokens outcome.reach
    | none => outcome

/-- What comes of reading a text by the first expression that matches. -/
def evaluateFirst (call : Nat → List Char → Outcome) :
    List (Ebnf.Expr (Ebnf.Symbol Terminal)) → List Char → Outcome
  | [], input => .fail input
  | part :: parts, input =>
    let outcome := evaluate call part input
    match outcome.matched with
    | some _ => outcome
    | none => (evaluateFirst call parts input).reaching outcome.reach

end

/-- How a rule puts its nodes into the tree. -/
inductive Shape where
  /-- Under a node of this kind. -/
  | node (kind : ParentKind)
  /-- Under a condition with the comparison found among the nodes. -/
  | condition
  deriving DecidableEq, Repr

/-- The rules that make a node, by name. -/
def shapes : List (String × Shape) :=
  [("COLOR", .node .colour), ("CONDITION", .condition), ("DATE", .node .date),
    ("DATE_TIME", .node .dateTime), ("TIME", .node .time), ("NUMBER", .node .number),
    ("FRACTION", .node .fraction), ("TEXT", .node .text), ("GENERAL", .node .general)]

/-- How the rule of a name puts its nodes into the tree, if it makes a node. -/
def shapeOf? (name : List Char) : Option Shape :=
  shapes.findSome? fun (spelling, shape) => if spelling.toList = name then some shape else none

/-- The comparison of the first comparison sign among some nodes. -/
def comparisonIn? (tokens : List Token) : Option Comparison :=
  tokens.findSome? fun token =>
    match token.leafKind? with
    | some (.conditionSymbol comparison) => some comparison
    | _ => none

/-- The node of a shape over some nodes. -/
def Shape.build? (shape : Shape) (tokens : List Token) : Option Token :=
  match shape with
  | .node kind => (Token.parent? kind tokens).toOption
  | .condition =>
    match comparisonIn? tokens with
    | some comparison => (Token.parent? (.condition comparison) tokens).toOption
    | none => none

/-- The outcome of a rule, from that of its expression. -/
def shaped (name : List Char) (outcome : Outcome) : Outcome :=
  match shapeOf? name with
  | none => outcome
  | some shape =>
    { outcome with
      matched := outcome.matched.bind fun (tokens, rest) =>
        (shape.build? tokens).map fun token => ([token], rest) }

/-- **What comes of reading a text by a rule**, with rules nested to a depth. At
depth zero nothing matches; `depthBound` is deep enough never to come to that. -/
def evaluateRule (grammar : Ebnf.Grammar Terminal) : Nat → Nat → List Char → Outcome
  | 0, _, input => .fail input
  | depth + 1, index, input =>
    match grammar.rules[index]? with
    | none => .fail input
    | some rule => shaped rule.name (evaluate (evaluateRule grammar depth) rule.body input)

/-- How deep rules can nest over a text without a rule starting with itself. -/
def depthBound (grammar : Ebnf.Grammar Terminal) (input : List Char) : Nat :=
  (input.length + 1) * grammar.rules.length

end Worksheet.Pattern
