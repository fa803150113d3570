import Worksheet.Formula.Tree
import Worksheet.Proofs.Answers

/-!
# What the readers of formulas read

The readers of formula trees carry a bound on the lexemes that are left, which
is what makes them end. What is read does not depend on it: `outcome` forgets
the bound, and for each reader there is one equation that says what is read in
terms of what the readers it calls read. Everything that is proved about reading
goes through these equations.
-/

namespace Worksheet.Formula

/-- What is read, without the bound on what is left. The readers return it as a
subtype, which is what their termination rests on and of no use behind them. -/
def outcome {p : Token × List Lexeme → Prop}
    (reading : Except SyntaxError { result : Token × List Lexeme // p result }) :
    Except SyntaxError (Token × List Lexeme) :=
  reading.map Subtype.val

theorem bound_of_outcome {p : Token × List Lexeme → Prop}
    {reading : Except SyntaxError { result : Token × List Lexeme // p result }}
    {found : Token × List Lexeme} (h : outcome reading = .ok found) : p found := by
  cases reading with
  | error e => cases h
  | ok result => exact Except.ok.inj h ▸ result.2

variable (finish : Nat)

/-- **A row of operands** is a first one, read by `readUnary`, and the
operations after it, which `readOperations` adds to it. -/
theorem outcome_readBinary (priority : Nat) (input : List Lexeme) :
    outcome (readBinary finish priority input)
      = (outcome (readUnary finish input)).bind fun found =>
          outcome (readOperations finish priority found.1 found.2) := by
  rw [readBinary]
  cases readUnary finish input with
  | error e => rfl
  | ok found =>
    obtain ⟨⟨left, rest⟩, hrest⟩ := found
    dsimp only [outcome, Except.map, Except.bind]
    cases readOperations finish priority left rest <;> rfl

/-- **Operations go on** while an operator follows that binds tightly enough.
The right operand is a row of its own, of operators that bind more tightly, so
that operators of one priority are grouped from the left. -/
theorem outcome_readOperations (priority : Nat) (left : Token) (input : List Lexeme) :
    outcome (readOperations finish priority left input)
      = match afterBlanks input with
        | [] => .ok (left, input)
        | lexeme :: rest =>
          match lexeme.kind.operator? with
          | none => .ok (left, input)
          | some operator =>
            if operator.priority < priority then .ok (left, input)
            else
              (outcome (readBinary finish (operator.priority + 1) (afterBlanks rest))).bind
                fun found =>
                  outcome (readOperations finish priority
                    (.join (.binary operator)
                      (left :: blanks input ++ lexeme.token :: blanks rest ++ [found.1]))
                    found.2) := by
  rw [readOperations]
  split
  -- on the left the match carries a proof, so only the right is rewritten
  · rename_i hinput
    conv => rhs; rw [hinput]
    rfl
  · rename_i lexeme rest hinput
    conv => rhs; rw [hinput]
    dsimp only
    cases lexeme.kind.operator? with
    | none => rfl
    | some operator =>
      dsimp only
      by_cases hpriority : operator.priority < priority
      · rw [if_pos hpriority, if_pos hpriority]
        rfl
      · rw [if_neg hpriority, if_neg hpriority]
        cases readBinary finish (operator.priority + 1) (afterBlanks rest) with
        | error e => rfl
        | ok found =>
          obtain ⟨⟨right, after⟩, hafter⟩ := found
          dsimp only [outcome, Except.map, Except.bind]
          cases readOperations finish priority _ after <;> rfl

theorem outcome_readPrimary_nil :
    outcome (readPrimary finish []) = .error (faultAt finish [] .unexpectedEnd) := by
  rw [readPrimary]
  rfl

theorem outcome_readUnary_nil :
    outcome (readUnary finish []) = .error (faultAt finish [] .unexpectedEnd) := by
  rw [readUnary]
  exact outcome_readPrimary_nil finish

/-- **Minus signs come first**, then an operand with its percent signs. The
blanks behind a minus sign stay in its node. -/
theorem outcome_readUnary (lexeme : Lexeme) (rest : List Lexeme) :
    outcome (readUnary finish (lexeme :: rest))
      = if lexeme.kind.isMark (.operator .subtraction) then
          (outcome (readUnary finish (afterBlanks rest))).map fun found =>
            (.join .negative (lexeme.token :: blanks rest ++ [found.1]), found.2)
        else
          (outcome (readPrimary finish (lexeme :: rest))).map fun found =>
            readPercents found.1 found.2 := by
  rw [readUnary]
  split
  · cases readUnary finish (afterBlanks rest) <;> rfl
  · cases readPrimary finish (lexeme :: rest) <;> rfl

/-- **A group** is a row of operands up to a closing parenthesis, with the
blanks on both sides of the row among its children. -/
theorem outcome_readGroup (opener : Lexeme) (input : List Lexeme) :
    outcome (readGroup finish opener input)
      = (outcome (readBinary finish 0 (afterBlanks input))).bind fun found =>
          match afterBlanks found.2 with
          | closer :: after =>
            if closer.kind.isMark .parenthesisClose then
              .ok (.join .group (opener.token :: blanks input ++ found.1 :: blanks found.2
                ++ [closer.token]), after)
            else .error (faultAt finish (closer :: after) .openGroup)
          | [] => .error (faultAt finish [] .openGroup) := by
  rw [readGroup]
  cases readBinary finish 0 (afterBlanks input) with
  | error e => rfl
  | ok found =>
    obtain ⟨⟨body, rest⟩, hrest⟩ := found
    dsimp only
    split
    · rename_i closer after hafter
      dsimp only [outcome, Except.map, Except.bind]
      conv => rhs; rw [hafter]
      dsimp only
      by_cases hcloser : closer.kind.isMark .parenthesisClose = true
      · rw [if_pos hcloser, if_pos hcloser]
      · rw [if_neg hcloser, if_neg hcloser]
    · rename_i hafter
      dsimp only [outcome, Except.map, Except.bind]
      conv => rhs; rw [hafter]

/-- **An operand** is decided by its first lexeme: it is one by itself, or
begins a group, a call or a range, or none is there. -/
theorem outcome_readPrimary (lexeme : Lexeme) (rest : List Lexeme) :
    outcome (readPrimary finish (lexeme :: rest))
      = match lexeme.kind with
        | .number _ | .text _ | .boolean _ | .error _ | .label _ => .ok (lexeme.token, rest)
        | .cell _ => .ok (readReference lexeme rest)
        | .functionName _ => outcome (readCall finish lexeme rest)
        | .mark .parenthesisOpen => outcome (readGroup finish lexeme rest)
        | _ => .error (faultAt finish (lexeme :: rest) (.unexpected lexeme.text)) := by
  rw [readPrimary]
  obtain ⟨kind, text, start⟩ := lexeme
  cases kind with
  | mark mark => cases mark <;> rfl
  | _ => rfl

theorem outcome_readCall_nil (name : Lexeme) :
    outcome (readCall finish name []) = .error (faultAt finish [] .missingArguments) := by
  rw [readCall]
  rfl

/-- **A call** has nothing between its parentheses, or arguments. Only blanks up
to the closing parenthesis make it a call without arguments. -/
theorem outcome_readCall (name opener : Lexeme) (rest : List Lexeme) :
    outcome (readCall finish name (opener :: rest))
      = if opener.kind.isMark .parenthesisOpen then
          match afterBlanks rest with
          | [] => outcome (readArguments finish (name.token :: opener.token :: blanks rest) [])
          | lexeme :: after =>
            if lexeme.kind.isMark .parenthesisClose then
              .ok (.join .call (name.token :: opener.token :: blanks rest ++ [lexeme.token]), after)
            else outcome (readArguments finish (name.token :: opener.token :: blanks rest)
              (lexeme :: after))
        else .error (faultAt finish (opener :: rest) .missingArguments) := by
  rw [readCall]
  split
  · dsimp only
    split
    · rename_i hafter
      conv => rhs; rw [hafter]
      dsimp only
      cases readArguments finish (name.token :: opener.token :: blanks rest) [] <;> rfl
    · rename_i lexeme after hafter
      conv => rhs; rw [hafter]
      dsimp only
      by_cases hclose : lexeme.kind.isMark .parenthesisClose = true
      · rw [if_pos hclose, if_pos hclose]
        rfl
      · rw [if_neg hclose, if_neg hclose]
        cases readArguments finish (name.token :: opener.token :: blanks rest)
          (lexeme :: after) <;> rfl
  · rfl

/-- **Arguments** go on after a comma, and end at a closing parenthesis. What
was read before is handed on as `front`, and the node is only made at the end. -/
theorem outcome_readArguments (front : List Token) (input : List Lexeme) :
    outcome (readArguments finish front input)
      = (outcome (readBinary finish 0 input)).bind fun found =>
          match afterBlanks found.2 with
          | [] => .error (faultAt finish [] .openArguments)
          | lexeme :: after =>
            if lexeme.kind.isMark .separator then
              outcome (readArguments finish
                (front ++ found.1 :: blanks found.2 ++ [lexeme.token] ++ blanks after)
                (afterBlanks after))
            else if lexeme.kind.isMark .parenthesisClose then
              .ok (.join .call (front ++ found.1 :: blanks found.2 ++ [lexeme.token]), after)
            else .error (faultAt finish (lexeme :: after) .openArguments) := by
  rw [readArguments]
  cases readBinary finish 0 input with
  | error e => rfl
  | ok found =>
    obtain ⟨⟨argument, rest⟩, hrest⟩ := found
    dsimp only
    split
    · rename_i hafter
      dsimp only [outcome, Except.map, Except.bind]
      conv => rhs; rw [hafter]
    · rename_i lexeme after hafter
      dsimp only [outcome, Except.map, Except.bind]
      conv => rhs; rw [hafter]
      dsimp only
      by_cases hcomma : lexeme.kind.isMark .separator = true
      · rw [if_pos hcomma, if_pos hcomma]
        cases readArguments finish
          (front ++ argument :: blanks rest ++ [lexeme.token] ++ blanks after)
          (afterBlanks after) <;> rfl
      · rw [if_neg hcomma, if_neg hcomma]
        by_cases hclose : lexeme.kind.isMark .parenthesisClose = true
        · rw [if_pos hclose, if_pos hclose]
        · rw [if_neg hclose, if_neg hclose]

/-- **A formula** is an equals sign and a row of operands, with nothing but
blanks behind it. -/
theorem ofLexemes?_cons (equals : Lexeme) (rest : List Lexeme) :
    Token.ofLexemes? finish (equals :: rest)
      = if equals.kind.isMark (.operator .equal) then
          (outcome (readBinary finish 0 (afterBlanks rest))).bind fun found =>
            match afterBlanks found.2 with
            | [] => .ok (.join .expression
                (equals.token :: blanks rest ++ found.1 :: blanks found.2))
            | lexeme :: more =>
              .error (faultAt finish (lexeme :: more) (.unexpected lexeme.text))
        else .error (faultAt finish (equals :: rest) .missingEquals) := by
  rw [Token.ofLexemes?]
  cases readBinary finish 0 (afterBlanks rest) <;> rfl

end Worksheet.Formula
