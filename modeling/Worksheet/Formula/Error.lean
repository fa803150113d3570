import Worksheet.Reference.Error

/-!
# Errors of formulas

Three things can go wrong with a formula: its text cannot be split into lexemes,
the lexemes do not make up a formula, or a tree that was not read from a text
does not stand for an expression. Reading a formula joins the first two, so
every error of a text has one form and says where it is.
-/

namespace Worksheet.Formula

/-- Why a text cannot be split into lexemes. -/
inductive LexicalFault where
  /-- A quoted text is not closed. -/
  | openText
  /-- A number sign that starts no error code. -/
  | errorCode
  /-- Digits that are no number. -/
  | number
  /-- An anchor that starts no reference. -/
  | reference (text : List Char)
  /-- A word that is no label. -/
  | label (fault : LabelError)
  /-- A parenthesis closes nothing. -/
  | closer
  /-- A parenthesis is not closed. -/
  | opener
  /-- A character that starts nothing. -/
  | character (char : Char)
  deriving DecidableEq, Repr

/-- A fault and the byte position it is at. -/
structure LexicalError where
  /-- What is wrong. -/
  fault : LexicalFault
  /-- Where it is. -/
  position : Nat
  deriving DecidableEq, Repr

/-- The wording of a lexical error. -/
def LexicalError.text (error : LexicalError) : String :=
  match error.fault with
  | .openText => "Reached end of formula while parsing string"
  | .errorCode => s!"Invalid error code at position {error.position}"
  | .number => s!"Invalid number at position {error.position}"
  | .reference text => s!"Invalid reference {quote text}"
  | .label fault => fault.message
  | .closer => s!"No matching opener for closer at position {error.position}"
  | .opener => "Unmatched opening parenthesis"
  | .character char => s!"Unexpected character {quoteChar char} at position {error.position}"

/-- The message of a lexical error. -/
def LexicalError.message (error : LexicalError) : String :=
  s!"TokenizerError: {error.text}"

/-- Why a text is no formula and no entry, or a node no node. -/
inductive SyntaxFault where
  /-- The text cannot be split into lexemes. -/
  | lexical (error : LexicalError)
  /-- A formula does not start with an equals sign. -/
  | missingEquals
  /-- A lexeme that cannot stand at its place. -/
  | unexpected (text : List Char)
  /-- The formula ends too early. -/
  | unexpectedEnd
  /-- A group is not closed. -/
  | openGroup
  /-- A function has no arguments. -/
  | missingArguments
  /-- The arguments of a function are not closed. -/
  | openArguments
  /-- There is nothing to read. -/
  | emptyEntry
  /-- A node has no text. -/
  | emptyToken
  deriving DecidableEq, Repr

/-- A fault and, if it is in a text, the byte position it is at. -/
structure SyntaxError where
  /-- What is wrong. -/
  fault : SyntaxFault
  /-- Where it is. -/
  position : Option Nat
  deriving DecidableEq, Repr

/-- The wording of a syntax fault. -/
def SyntaxFault.text : SyntaxFault → String
  | .lexical error => error.text
  | .missingEquals => "Formula must start with '='"
  | .unexpected text => s!"Unexpected token {quote text}"
  | .unexpectedEnd => "Unexpected end of formula"
  | .openGroup => "Expected closing parenthesis"
  | .missingArguments => "Expected '(' after function name"
  | .openArguments => "Expected ',' or ')' in function arguments"
  | .emptyEntry => "Empty value"
  | .emptyToken => "empty token"

/-- The message of a syntax error. -/
def SyntaxError.message (error : SyntaxError) : String :=
  match error.position with
  | some position => s!"ParserError at position {position}: {error.fault.text}"
  | none => s!"ParserError: {error.fault.text}"

/-- A lexical error as an error of the formula. -/
def LexicalError.toSyntaxError (error : LexicalError) : SyntaxError :=
  ⟨.lexical error, some error.position⟩

/-- The part of an expression in which something does not fit. -/
inductive Place where
  | expression
  | negative
  | percentage
  | binary
  | range
  | call
  deriving DecidableEq, Repr

/-- What a place is called. -/
def Place.text : Place → String
  | .expression => "expression"
  | .negative => "negative"
  | .percentage => "percentage"
  | .binary => "binary expression"
  | .range => "range"
  | .call => "function call"

/-- Why a formula does not move on. -/
inductive FormulaError where
  /-- The text has too many characters. -/
  | tooLong (length max : Nat)
  /-- The text is no formula and no entry. -/
  | badSyntax (error : SyntaxError)
  /-- A node that does not fit at its place in an expression. -/
  | unexpectedToken (text : List Char) (place : Place)
  deriving DecidableEq, Repr

/-- The message of a formula error. -/
def FormulaError.message : FormulaError → String
  | .tooLong length max => s!"formula text of {length} characters exceeds the maximum of {max}"
  | .badSyntax error => error.message
  | .unexpectedToken text place => s!"unexpected token {quote text} in {place.text}"

end Worksheet.Formula
