import Worksheet.Ebnf.Lexeme
import Worksheet.Text.Quoted

/-!
# Grammars in extended Backus–Naur form

A grammar is a list of rules, each a name and an expression. In a source, `|`
separates alternatives and binds weaker than `,`, which separates the parts of a
sequence; brackets make a part optional, braces repeat it, parentheses only
group. An alternative or a sequence of one part is that part.

Reading goes in two steps. First the rules are read, with every name as it is
written. Then each name is looked up: a rule of that name comes first, wherever
it is defined, and a terminal of that name second.
-/

namespace Worksheet.Ebnf

/-- **An expression** whose names are of type `S`: the names as they are written
when a source is read, and a `Symbol` for each of them once they are looked up. -/
inductive Expr (S : Type) where
  /-- Exactly this text. -/
  | literal (text : List Char)
  /-- What a name stands for. -/
  | symbol (name : S)
  /-- One part after the other. -/
  | sequence (parts : List (Expr S))
  /-- The first part that matches. -/
  | choice (parts : List (Expr S))
  /-- The part, or nothing. -/
  | optional (part : Expr S)
  /-- The part any number of times. -/
  | repetition (part : Expr S)

/-- What a resolved name stands for. -/
inductive Symbol (T : Type) where
  /-- The rule at a place in the list of rules. -/
  | rule (index : Nat)
  /-- A terminal. -/
  | terminal (terminal : T)
  deriving DecidableEq

/-- A rule. -/
structure Rule (S : Type) where
  /-- The name the rule defines. -/
  name : List Char
  /-- What it stands for. -/
  body : Expr S

/-- A grammar whose names are resolved. -/
structure Grammar (T : Type) where
  /-- The rules in source order. -/
  rules : List (Rule (Symbol T))

/-- The place of a rule's name in a list of rules. -/
def ruleIndex? (rules : List (Rule S)) (name : List Char) : Option Nat :=
  rules.findIdx? fun rule => rule.name == name

/-- The place of a grammar's rule. -/
def Grammar.ruleIndex? (grammar : Grammar T) (name : List Char) : Option Nat :=
  Ebnf.ruleIndex? grammar.rules name

/-- What is wrong at a place in a grammar source. -/
inductive SyntaxFault where
  | openComment
  | openLiteral
  | emptyLiteral
  /-- A name should stand here. -/
  | expectedName
  /-- This mark should stand here. -/
  | expected (mark : Char)
  deriving DecidableEq, Repr

/-- The wording of a fault. -/
def SyntaxFault.message : SyntaxFault → String
  | .openComment => "unterminated comment"
  | .openLiteral => "unterminated literal"
  | .emptyLiteral => "empty literal"
  | .expectedName => "expected a rule name"
  | .expected mark => s!"expected '{mark}'"

/-- Why a source is not a grammar, or not the grammar that is needed. -/
inductive GrammarError where
  /-- The source cannot be read past a byte position. -/
  | badSyntax (position : Nat) (fault : SyntaxFault)
  /-- Two rules have one name. -/
  | duplicateRule (name : List Char)
  /-- A name is neither a rule nor a terminal. -/
  | unknownName (name : List Char)
  /-- A rule that must be there is not. -/
  | missingRule (name : List Char)
  deriving DecidableEq, Repr

/-- The wording of a grammar error. -/
def GrammarError.message : GrammarError → String
  | .badSyntax position fault => s!"grammar syntax error at {position}: {fault.message}"
  | .duplicateRule name => s!"rule {quote name} is defined more than once"
  | .unknownName name => s!"{quote name} is neither a rule nor a registered primitive"
  | .missingRule name => s!"grammar has no rule named {quote name}"

/-! ## Reading rules -/

/-- A value read from the front of a list of lexemes, and the fewer lexemes that
are left. That they are fewer is part of the type, and what the readers below,
which call one another, recur on. -/
abbrev Reading (α : Type) (input : List Placed) : Type :=
  Except GrammarError { result : α × List Placed // result.2.length < input.length }

/-- The error at the front of the lexemes: the lexeme's own fault, or else the
one given. The end of the source is at `finish`, since behind the last lexeme
there is no position to go by. -/
def faultAt (finish : Nat) (input : List Placed) (fault : SyntaxFault) : GrammarError :=
  match input with
  | [] => .badSyntax finish fault
  | placed :: _ =>
    match placed.lexeme with
    | .openComment => .badSyntax placed.position .openComment
    | _ => .badSyntax placed.position fault

/-- A given mark. -/
def readMark (finish : Nat) (mark : Char) (input : List Placed) : Reading Unit input :=
  match input with
  | [] => .error (faultAt finish [] (.expected mark))
  | placed :: rest =>
    if placed.lexeme = .mark mark then .ok ⟨((), rest), by simp⟩
    else .error (faultAt finish (placed :: rest) (.expected mark))

/-- A name. -/
def readName (finish : Nat) (input : List Placed) : Reading (List Char) input :=
  match input with
  | ⟨.name text, _⟩ :: rest => .ok ⟨(text, rest), by simp⟩
  | input => .error (faultAt finish input .expectedName)

/-- The only part of a list, or all of them under a constructor: `readSequence`
and `readAlternatives` make no node over a single part. -/
def collapse (wrap : List (Expr S) → Expr S) : List (Expr S) → Expr S
  | [part] => part
  | parts => wrap parts

mutual

/-- A literal, a name, or an expression in brackets, braces or parentheses. -/
def readFactor (finish : Nat) (input : List Placed) : Reading (Expr (List Char)) input :=
  match input with
  | [] => .error (faultAt finish [] .expectedName)
  | placed :: rest =>
    match placed.lexeme with
    | .literal text => .ok ⟨(.literal text, rest), by simp⟩
    | .name text => .ok ⟨(.symbol text, rest), by simp⟩
    | .openLiteral => .error (.badSyntax placed.position .openLiteral)
    | .emptyLiteral => .error (.badSyntax placed.position .emptyLiteral)
    | .mark '[' => readEnclosed finish .optional ']' placed rest
    | .mark '{' => readEnclosed finish .repetition '\x7d' placed rest
    | .mark '(' => readEnclosed finish id ')' placed rest
    | _ => .error (faultAt finish (placed :: rest) .expectedName)
termination_by (input.length, 0)

/-- Alternatives and the mark that closes them. -/
def readEnclosed (finish : Nat) (wrap : Expr (List Char) → Expr (List Char)) (close : Char)
    (opening : Placed) (input : List Placed) : Reading (Expr (List Char)) (opening :: input) :=
  match readAlternatives finish input with
  | .error e => .error e
  | .ok ⟨(inner, rest), h⟩ =>
    match readMark finish close rest with
    | .error e => .error e
    | .ok ⟨(_, after), h'⟩ => .ok ⟨(wrap inner, after), by simp at h h' ⊢; omega⟩
termination_by (input.length, 5)

/-- Factors separated by commas. -/
def readSequence (finish : Nat) (input : List Placed) : Reading (Expr (List Char)) input :=
  match readFactor finish input with
  | .error e => .error e
  | .ok ⟨(first, rest), h⟩ =>
    match readMoreFactors finish rest with
    | .error e => .error e
    | .ok ⟨(more, after), h'⟩ =>
      .ok ⟨(collapse .sequence (first :: more), after), by simp at h h' ⊢; omega⟩
termination_by (input.length, 2)
decreasing_by
  · exact Prod.Lex.right _ (by omega)
  · exact Prod.Lex.left _ _ h

/-- Further factors, each after a comma. -/
def readMoreFactors (finish : Nat) (input : List Placed) :
    Except GrammarError
      { result : List (Expr (List Char)) × List Placed // result.2.length ≤ input.length } :=
  match input with
  | [] => .ok ⟨([], []), by simp⟩
  | placed :: rest =>
    if placed.lexeme = .mark ',' then
      match readFactor finish rest with
      | .error e => .error e
      | .ok ⟨(next, after), h⟩ =>
        match readMoreFactors finish after with
        | .error e => .error e
        | .ok ⟨(more, final), h'⟩ => .ok ⟨(next :: more, final), by simp at h h' ⊢; omega⟩
    else if placed.lexeme = .openComment then .error (.badSyntax placed.position .openComment)
    else .ok ⟨([], placed :: rest), by simp⟩
termination_by (input.length, 1)
decreasing_by
  · exact Prod.Lex.left _ _ (by simp)
  · exact Prod.Lex.left _ _ (Nat.lt_trans h (by simp))

/-- Sequences separated by bars. -/
def readAlternatives (finish : Nat) (input : List Placed) : Reading (Expr (List Char)) input :=
  match readSequence finish input with
  | .error e => .error e
  | .ok ⟨(first, rest), h⟩ =>
    match readMoreSequences finish rest with
    | .error e => .error e
    | .ok ⟨(more, after), h'⟩ =>
      .ok ⟨(collapse .choice (first :: more), after), by simp at h h' ⊢; omega⟩
termination_by (input.length, 4)
decreasing_by
  · exact Prod.Lex.right _ (by omega)
  · exact Prod.Lex.left _ _ h

/-- Further sequences, each after a bar. -/
def readMoreSequences (finish : Nat) (input : List Placed) :
    Except GrammarError
      { result : List (Expr (List Char)) × List Placed // result.2.length ≤ input.length } :=
  match input with
  | [] => .ok ⟨([], []), by simp⟩
  | placed :: rest =>
    if placed.lexeme = .mark '|' then
      match readSequence finish rest with
      | .error e => .error e
      | .ok ⟨(next, after), h⟩ =>
        match readMoreSequences finish after with
        | .error e => .error e
        | .ok ⟨(more, final), h'⟩ => .ok ⟨(next :: more, final), by simp at h h' ⊢; omega⟩
    else .ok ⟨([], placed :: rest), by simp⟩
termination_by (input.length, 3)
decreasing_by
  · exact Prod.Lex.left _ _ (by simp)
  · exact Prod.Lex.left _ _ (Nat.lt_trans h (by simp))

end

/-- One rule: a name, an equals sign, alternatives and a semicolon. -/
def readRule (finish : Nat) (input : List Placed) : Reading (Rule (List Char)) input :=
  match readName finish input with
  | .error e => .error e
  | .ok ⟨(name, rest), h⟩ =>
    match readMark finish '=' rest with
    | .error e => .error e
    | .ok ⟨(_, rest), h'⟩ =>
      match readAlternatives finish rest with
      | .error e => .error e
      | .ok ⟨(body, rest), h''⟩ =>
        match readMark finish ';' rest with
        | .error e => .error e
        | .ok ⟨(_, rest), h'''⟩ => .ok ⟨(⟨name, body⟩, rest), by simp at h h' h'' h''' ⊢; omega⟩

/-- All rules; a name is refused as soon as it is defined again, which is before
the rules behind it are read. -/
def readRules (finish : Nat) (earlier : List (Rule (List Char))) (input : List Placed) :
    Except GrammarError (List (Rule (List Char))) :=
  match input with
  | [] => .ok earlier
  | placed :: rest =>
    match readRule finish (placed :: rest) with
    | .error e => .error e
    | .ok ⟨(rule, after), _⟩ =>
      if (ruleIndex? earlier rule.name).isSome then .error (.duplicateRule rule.name)
      else readRules finish (earlier ++ [rule]) after
termination_by input.length
decreasing_by simp_all

/-! ## Resolving names -/

mutual

/-- An expression with each name looked up, from left to right. -/
def Expr.resolve (look : S → Except GrammarError S') : Expr S → Except GrammarError (Expr S')
  | .literal text => .ok (.literal text)
  | .symbol name => (look name).map .symbol
  | .sequence parts => (Expr.resolveAll look parts).map .sequence
  | .choice parts => (Expr.resolveAll look parts).map .choice
  | .optional part => (part.resolve look).map .optional
  | .repetition part => (part.resolve look).map .repetition

/-- Expressions with each name looked up, from left to right. -/
def Expr.resolveAll (look : S → Except GrammarError S') :
    List (Expr S) → Except GrammarError (List (Expr S'))
  | [] => .ok []
  | part :: parts =>
    match part.resolve look with
    | .error e => .error e
    | .ok part => (Expr.resolveAll look parts).map (part :: ·)

end

/-- **What a name stands for** among some rules and terminals: the rule, if
there is one, wherever it is defined, and else the terminal. -/
def lookUp (rules : List (Rule (List Char))) (terminal? : List Char → Option T)
    (name : List Char) : Except GrammarError (Symbol T) :=
  match ruleIndex? rules name, terminal? name with
  | some index, _ => .ok (.rule index)
  | none, some terminal => .ok (.terminal terminal)
  | none, none => .error (.unknownName name)

/-- Rules with each name looked up. -/
def resolveRules (look : S → Except GrammarError S') :
    List (Rule S) → Except GrammarError (List (Rule S'))
  | [] => .ok []
  | rule :: rules =>
    match rule.body.resolve look with
    | .error e => .error e
    | .ok body => (resolveRules look rules).map (⟨rule.name, body⟩ :: ·)

/-- **The grammar a source spells**, given what names terminals have. Every rule
is read (`readRules`) before any name is looked up (`resolveRules`), so a fault
in the writing is found before an unknown name. -/
def Grammar.ofSource? (terminal? : List Char → Option T) (source : List Char) :
    Except GrammarError (Grammar T) :=
  match readRules (Text.byteLength source) [] (lexemes source source) with
  | .error e => .error e
  | .ok rules => (resolveRules (lookUp rules terminal?) rules).map Grammar.mk

end Worksheet.Ebnf
