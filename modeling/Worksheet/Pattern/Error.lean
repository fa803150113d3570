import Worksheet.Text.Basic
import Worksheet.Text.Quoted

/-!
# What can be wrong with a pattern

A pattern text may not follow the pattern grammar (`PatternTextError`); a tree
that does may still not fit the purpose it is read for (`PatternError`).
-/

namespace Worksheet.Pattern

/-- What a pattern is for. -/
inductive Kind where
  | dateFormat
  | dateParse
  | dateTimeFormat
  | dateTimeParse
  | numberFormat
  | numberParse
  | textFormat
  | timeFormat
  | timeParse
  deriving DecidableEq, Repr

/-- The name of a purpose. -/
def Kind.name : Kind → String
  | dateFormat => "date-format"
  | dateParse => "date-parse"
  | dateTimeFormat => "date-time-format"
  | dateTimeParse => "date-time-parse"
  | numberFormat => "number-format"
  | numberParse => "number-parse"
  | textFormat => "text-format"
  | timeFormat => "time-format"
  | timeParse => "time-parse"

/-- Why a text is not a pattern. -/
inductive PatternTextError where
  /-- There is no text. -/
  | empty
  /-- No pattern goes on with this character at its byte position. -/
  | invalidCharacter (char : Char) (position : Nat) (text : List Char)
  /-- The text ends where a pattern does not. -/
  | unexpectedEnd (text : List Char)
  /-- A node without text was to be built. -/
  | emptyToken
  deriving DecidableEq, Repr

namespace PatternTextError

/-- The wording of a pattern text error. -/
def message : PatternTextError → String
  | empty => "empty pattern"
  | invalidCharacter char position text =>
    s!"invalid character {quoteChar char} at {position} in {quote text}"
  | unexpectedEnd text => s!"pattern {quote text} ended unexpectedly"
  | emptyToken => "token text must not be empty"

/-- The error of a text that cannot be read past the point where `rest` is
left. -/
def stoppedAt (text rest : List Char) : PatternTextError :=
  match rest with
  | c :: _ => .invalidCharacter c (Text.position text rest) text
  | [] => .unexpectedEnd text

end PatternTextError

/-- What a pattern was asked to become. -/
inductive Usage where
  | formatter
  | numberParser
  | dateTimeParser
  deriving DecidableEq, Repr

/-- What a pattern was asked to become, in words. -/
def Usage.name : Usage → String
  | formatter => "a formatter"
  | numberParser => "a number parser"
  | dateTimeParser => "a date/time parser"

/-- Why a text or a tree is no pattern for a purpose. -/
inductive PatternError where
  /-- The text is no pattern at all. -/
  | text (error : PatternTextError)
  /-- A piece of the tree has no place in a pattern of its kind. -/
  | invalidToken (kind : Kind) (token : List Char)
  /-- There are too many sections. -/
  | sectionCount (kind : Kind) (count max : Nat)
  /-- The pattern cannot be used like that. -/
  | wrongKind (kind : Kind) (wanted : Usage)
  deriving DecidableEq, Repr

/-- The wording of a pattern error. -/
def PatternError.message : PatternError → String
  | text error => error.message
  | invalidToken kind token => s!"{kind.name} pattern does not allow {quote token}"
  | sectionCount kind count max =>
    s!"{kind.name} pattern has {count} sections, at most {max} allowed"
  | wrongKind kind wanted => s!"{kind.name} pattern cannot be used as {wanted.name}"

end Worksheet.Pattern
