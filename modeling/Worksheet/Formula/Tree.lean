import Worksheet.Formula.Lexeme

/-!
# Formula trees from lexemes

A formula is an equals sign and an expression. An expression is a row of
operands with operators between them; an operand is a literal, a reference, a
call or a group, with percent signs after it and minus signs before it. Percent
signs bind tightest, then minus signs, then the operators by their priority; of
two operators of one priority the left one binds tighter.

Blanks may stand anywhere but inside a range, before a percent sign, and between
the name of a function and its parenthesis. They are kept, under the innermost
node that goes on after them, so the leaves of the tree are the lexemes in
order.

An error is at the first lexeme that cannot be used, or at the end.
-/

namespace Worksheet.Formula

/-- A node read from the front of some lexemes, and the fewer lexemes that are
left. -/
abbrev Reading (input : List Lexeme) : Type :=
  Except SyntaxError { result : Token × List Lexeme // result.2.length < input.length }

/-- The blanks at the front of some lexemes, as leaves. -/
def blanks (input : List Lexeme) : List Token :=
  (input.takeWhile Lexeme.isBlank).map Lexeme.token

/-- The lexemes after the blanks at their front. -/
def afterBlanks (input : List Lexeme) : List Lexeme :=
  input.dropWhile Lexeme.isBlank

/-- Leaving out blanks leaves no more lexemes. -/
theorem length_afterBlanks (input : List Lexeme) : (afterBlanks input).length ≤ input.length :=
  (List.dropWhile_suffix Lexeme.isBlank).length_le

/-- A fault at the front of some lexemes; after the last of them comes the end
of the text. -/
def faultAt (finish : Nat) (input : List Lexeme) (fault : SyntaxFault) : SyntaxError :=
  ⟨fault, some ((input.head?.map Lexeme.start).getD finish)⟩

/-- An operand with the percent signs that follow it directly. -/
def readPercents (operand : Token) : List Lexeme → Token × List Lexeme
  | [] => (operand, [])
  | lexeme :: rest =>
    if lexeme.kind.isMark .percent then
      readPercents (.join .percentage [operand, lexeme.token]) rest
    else (operand, lexeme :: rest)

/-- Percent signs leave no more lexemes. -/
theorem length_readPercents (operand : Token) (input : List Lexeme) :
    (readPercents operand input).2.length ≤ input.length := by
  fun_induction readPercents operand input with
  | case1 => simp
  | case2 operand lexeme rest hpercent ih => simp; omega
  | case3 => simp

/-- A cell, or a range when a colon and another cell follow directly. -/
def readReference (first : Lexeme) (input : List Lexeme) : Token × List Lexeme :=
  match input with
  | between :: last :: rest =>
    match last.kind with
    | .cell _ =>
      if between.kind.isMark .between then
        (.join .range [first.token, between.token, last.token], rest)
      else (first.token, input)
    | _ => (first.token, input)
  | _ => (first.token, input)

/-- A reference leaves no more lexemes. -/
theorem length_readReference (first : Lexeme) (input : List Lexeme) :
    (readReference first input).2.length ≤ input.length := by
  unfold readReference
  grind

mutual

/-- **An operand and the operators after it** that bind at least so tightly,
with their operands. `readOperations` goes on from the operand; each right
operand is read by `readBinary` again, with the next higher priority. -/
def readBinary (finish priority : Nat) (input : List Lexeme) : Reading input :=
  match readUnary finish input with
  | .error e => .error e
  | .ok ⟨(left, rest), h⟩ =>
    match readOperations finish priority left rest with
    | .error e => .error e
    | .ok ⟨result, h'⟩ => .ok ⟨result, Nat.lt_of_le_of_lt h' h⟩
termination_by (input.length, 3)
decreasing_by
  · exact Prod.Lex.right _ (by omega)
  · exact Prod.Lex.left _ _ h

/-- A left operand with the operators after it that bind at least so tightly,
and their right operands, in which only tighter operators stand. Blanks before
an operator go under the node that the operator makes. -/
def readOperations (finish priority : Nat) (left : Token) (input : List Lexeme) :
    Except SyntaxError { result : Token × List Lexeme // result.2.length ≤ input.length } :=
  match _h : afterBlanks input with
  | [] => .ok ⟨(left, input), Nat.le_refl _⟩
  | lexeme :: rest =>
    match lexeme.kind.operator? with
    | none => .ok ⟨(left, input), Nat.le_refl _⟩
    | some operator =>
      if operator.priority < priority then .ok ⟨(left, input), Nat.le_refl _⟩
      else
        match readBinary finish (operator.priority + 1) (afterBlanks rest) with
        | .error e => .error e
        | .ok ⟨(right, after), h'⟩ =>
          let operation := Token.join (.binary operator)
            (left :: blanks input ++ lexeme.token :: blanks rest ++ [right])
          match readOperations finish priority operation after with
          | .error e => .error e
          | .ok ⟨result, h''⟩ =>
            .ok ⟨result, by
              have := length_afterBlanks input
              have := length_afterBlanks rest
              simp_all; omega⟩
termination_by (input.length, 0)
decreasing_by
  · have := length_afterBlanks input
    have := length_afterBlanks rest
    exact Prod.Lex.left _ _ (by simp_all; omega)
  · have := length_afterBlanks input
    have := length_afterBlanks rest
    exact Prod.Lex.left _ _ (by simp_all; omega)

/-- An operand with its percent signs, and the minus signs before it. -/
def readUnary (finish : Nat) (input : List Lexeme) : Reading input :=
  match input with
  | [] => readPrimary finish []
  | lexeme :: rest =>
    if lexeme.kind.isMark (.operator .subtraction) then
      match readUnary finish (afterBlanks rest) with
      | .error e => .error e
      | .ok ⟨(operand, after), h⟩ =>
        .ok ⟨(.join .negative (lexeme.token :: blanks rest ++ [operand]), after), by
          have := length_afterBlanks rest
          simp at h ⊢; omega⟩
    else
      match readPrimary finish (lexeme :: rest) with
      | .error e => .error e
      | .ok ⟨(operand, after), h⟩ =>
        .ok ⟨readPercents operand after, Nat.lt_of_le_of_lt (length_readPercents operand after) h⟩
termination_by (input.length, 2)
decreasing_by
  · exact Prod.Lex.right _ (by omega)
  · have := length_afterBlanks rest
    exact Prod.Lex.left _ _ (by simp; omega)
  · exact Prod.Lex.right _ (by omega)

/-- A literal, a reference, a call or a group. Everything else at the front of
the lexemes is an error there. -/
def readPrimary (finish : Nat) (input : List Lexeme) : Reading input :=
  match input with
  | [] => .error (faultAt finish [] .unexpectedEnd)
  | lexeme :: rest =>
    match lexeme.kind with
    | .number _ | .text _ | .boolean _ | .error _ | .label _ => .ok ⟨(lexeme.token, rest), by simp⟩
    | .cell _ =>
      .ok ⟨readReference lexeme rest, Nat.lt_succ_of_le (length_readReference lexeme rest)⟩
    | .functionName _ => readCall finish lexeme rest
    | .mark .parenthesisOpen => readGroup finish lexeme rest
    | _ => .error (faultAt finish (lexeme :: rest) (.unexpected lexeme.text))
termination_by (input.length, 1)
decreasing_by
  · exact Prod.Lex.left _ _ (by simp)
  · exact Prod.Lex.left _ _ (by simp)

/-- A group after its opening parenthesis. -/
def readGroup (finish : Nat) (opener : Lexeme) (input : List Lexeme) : Reading (opener :: input) :=
  match readBinary finish 0 (afterBlanks input) with
  | .error e => .error e
  | .ok ⟨(body, rest), h⟩ =>
    match _h : afterBlanks rest with
    | closer :: after =>
      if closer.kind.isMark .parenthesisClose then
        .ok ⟨(.join .group
            (opener.token :: blanks input ++ body :: blanks rest ++ [closer.token]), after), by
          have := length_afterBlanks input
          have := length_afterBlanks rest
          simp_all; omega⟩
      else .error (faultAt finish (closer :: after) .openGroup)
    | [] => .error (faultAt finish [] .openGroup)
termination_by (input.length, 4)
decreasing_by
  · have := length_afterBlanks input
    exact Nat.lt_or_eq_of_le this |>.elim (fun lt => Prod.Lex.left _ _ lt)
      (fun eq => eq ▸ Prod.Lex.right _ (by omega))

/-- A call after the name of its function. -/
def readCall (finish : Nat) (name : Lexeme) (input : List Lexeme) : Reading (name :: input) :=
  match input with
  | [] => .error (faultAt finish [] .missingArguments)
  | opener :: rest =>
    if opener.kind.isMark .parenthesisOpen then
      let front := name.token :: opener.token :: blanks rest
      match _h : afterBlanks rest with
      | [] =>
        match readArguments finish front [] with
        | .error e => .error e
        | .ok ⟨result, h⟩ => .ok ⟨result, by simp at h⟩
      | lexeme :: after =>
        if lexeme.kind.isMark .parenthesisClose then
          .ok ⟨(.join .call (front ++ [lexeme.token]), after), by
            have := length_afterBlanks rest
            simp_all; omega⟩
        else
          match readArguments finish front (lexeme :: after) with
          | .error e => .error e
          | .ok ⟨result, h⟩ =>
            .ok ⟨result, by
              have := length_afterBlanks rest
              simp_all; omega⟩
    else .error (faultAt finish (opener :: rest) .missingArguments)
termination_by (input.length, 5)
decreasing_by
  · exact Prod.Lex.left _ _ (by simp)
  · have := length_afterBlanks rest
    exact Prod.Lex.left _ _ (by simp_all only [List.length_cons]; omega)

/-- The arguments of a call up to the closing parenthesis, after the nodes in
front of them. -/
def readArguments (finish : Nat) (front : List Token) (input : List Lexeme) : Reading input :=
  match readBinary finish 0 input with
  | .error e => .error e
  | .ok ⟨(argument, rest), h⟩ =>
    match _h : afterBlanks rest with
    | [] => .error (faultAt finish [] .openArguments)
    | lexeme :: after =>
      let read := front ++ argument :: blanks rest ++ [lexeme.token]
      if lexeme.kind.isMark .separator then
        match readArguments finish (read ++ blanks after) (afterBlanks after) with
        | .error e => .error e
        | .ok ⟨result, h'⟩ =>
          .ok ⟨result, by
            have := length_afterBlanks rest
            have := length_afterBlanks after
            simp_all; omega⟩
      else if lexeme.kind.isMark .parenthesisClose then
        .ok ⟨(.join .call read, after), by
          have := length_afterBlanks rest
          simp_all; omega⟩
      else .error (faultAt finish (lexeme :: after) .openArguments)
termination_by (input.length, 4)
decreasing_by
  · exact Prod.Lex.right _ (by omega)
  · have := length_afterBlanks rest
    have := length_afterBlanks after
    exact Prod.Lex.left _ _ (by simp_all; omega)

end

/-- **The tree of a formula's lexemes**, the text ending at `finish`. Whatever
the expression leaves, blanks apart, is an error at its first lexeme. -/
def Token.ofLexemes? (finish : Nat) (input : List Lexeme) : Except SyntaxError Token :=
  match input with
  | [] => .error (faultAt finish [] .missingEquals)
  | equals :: rest =>
    if equals.kind.isMark (.operator .equal) then
      match readBinary finish 0 (afterBlanks rest) with
      | .error e => .error e
      | .ok ⟨(body, after), _⟩ =>
        match afterBlanks after with
        | [] => .ok (.join .expression (equals.token :: blanks rest ++ body :: blanks after))
        | lexeme :: more => .error (faultAt finish (lexeme :: more) (.unexpected lexeme.text))
    else .error (faultAt finish (equals :: rest) .missingEquals)

/-- The tree of a formula. -/
def Token.ofFormula? (reader : Reader) (text : List Char) : Except SyntaxError Token :=
  match lexemes reader text with
  | .error e => .error e.toSyntaxError
  | .ok input => ofLexemes? (Text.byteLength text) input

end Worksheet.Formula
