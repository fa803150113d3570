import Worksheet.Pattern.Evaluation

/-!
# The grammar of patterns

A pattern is a list of sections between semicolons, any of which may be empty.
The rules for each kind of section are given as a grammar; the standard one is
`standard`, and `standardSource` spells it.

A section is read by the first of some alternatives that reaches the end of the
section, so that one that only matches the beginning gives way to the next.
-/

namespace Worksheet.Pattern

/-- The named parts of a pattern. -/
inductive Part where
  | colour
  | condition
  | date
  | dateTime
  | general
  | number
  | text
  | time
  | fraction
  | separator
  deriving DecidableEq, Repr

namespace Part

/-- Every part, in the order in which a grammar is checked for them. -/
def all : List Part :=
  [colour, condition, date, dateTime, general, number, text, time, fraction, separator]

/-- The rule of a part. -/
def ruleName : Part → String
  | colour => "COLOR"
  | condition => "CONDITION"
  | date => "DATE"
  | dateTime => "DATE_TIME"
  | general => "GENERAL"
  | number => "NUMBER"
  | text => "TEXT"
  | time => "TIME"
  | fraction => "FRACTION"
  | separator => "EXPRESSION_SEPARATOR"

/-- The sections of a pattern that is not for a given purpose, in the order they
are tried. -/
def sections : List Part :=
  [general, fraction, number, dateTime, text]

end Part

/-- The grammar a source spells, with a rule for every part. -/
def loadGrammar? (source : List Char) : Except Ebnf.GrammarError (Ebnf.Grammar Terminal) :=
  match Ebnf.Grammar.ofSource? Terminal.ofName? source with
  | .error e => .error e
  | .ok grammar =>
    match Part.all.find? fun part => (grammar.ruleIndex? part.ruleName.toList).isNone with
    | some part => .error (.missingRule part.ruleName.toList)
    | none => .ok grammar

/-! ## Reading parts and sections -/

/-- **A part at the front of a text**, as one node, and how far the reading
reached: its rule, evaluated to the depth of `depthBound`. -/
def readPart (grammar : Ebnf.Grammar Terminal) (part : Part) (input : List Char) :
    Option (Token × List Char) × Nat :=
  match grammar.ruleIndex? part.ruleName.toList with
  | none => (none, input.length)
  | some index =>
    let outcome := evaluateRule grammar (depthBound grammar input) index input
    match outcome.matched with
    | some ([token], rest) => (some (token, rest), outcome.reach)
    | _ => (none, outcome.reach)

/-- The part a whole text is. -/
def wholePart? (grammar : Ebnf.Grammar Terminal) (part : Part) (text : List Char) :
    Except PatternTextError Token :=
  if text.isEmpty then .error .empty
  else
    match readPart grammar part text with
    | (some (token, []), _) => .ok token
    | (some (_, rest), _) => .error (.stoppedAt text rest)
    | (none, reach) => .error (.stoppedAt text (text.drop (text.length - reach)))

/-- Whether a section ends where a rest begins. -/
def endsSection : List Char → Bool
  | [] => true
  | c :: _ => c == ';'

/-- The section at the front of a text by the first alternative that reaches its
end (`endsSection`), and how far the reading reached. -/
def readSection (grammar : Ebnf.Grammar Terminal) (input : List Char) :
    List Part → Nat → Option (Token × List Char) × Nat
  | [], reach => (none, reach)
  | part :: parts, reach =>
    match readPart grammar part input with
    | (some (token, rest), reached) =>
      if endsSection rest then (some (token, rest), min reach reached)
      else readSection grammar input parts (min reach reached)
    | (none, reached) => readSection grammar input parts (min reach reached)

/-- The sections and separators of the rest of a text, after a reading that
reached as far as given. -/
def readSections (grammar : Ebnf.Grammar Terminal) (alternatives : List Part) (text : List Char)
    (reach : Nat) (input : List Char) : Except PatternTextError (List Token) :=
  let read : Option (List Token × List Char) × Nat :=
    if endsSection input then (some ([], input), reach)
    else
      match readSection grammar input alternatives reach with
      | (some (token, rest), reached) => (some ([token], rest), reached)
      | (none, reached) => (none, reached)
  match read with
  | (none, reached) =>
    .error (.stoppedAt text (text.drop (text.length - min reached input.length)))
  | (some (tokens, []), _) => .ok tokens
  | (some (tokens, rest), reached) =>
    match grammar.ruleIndex? Part.separator.ruleName.toList with
    | none => .error (.stoppedAt text rest)
    | some index =>
      let outcome := evaluateRule grammar (depthBound grammar rest) index rest
      match outcome.matched with
      | none => .error (.stoppedAt text rest)
      | some (separators, after) =>
        if after.length < input.length then
          (readSections grammar alternatives text (min reached outcome.reach) after).map
            fun more => tokens ++ separators ++ more
        else .error (.stoppedAt text rest)
termination_by input.length

/-- **The pattern a whole text is**, each section of which is one of the
alternatives. An empty text is none. -/
def wholePattern? (grammar : Ebnf.Grammar Terminal) (alternatives : List Part) (text : List Char) :
    Except PatternTextError Token :=
  if text.isEmpty then .error .empty
  else
    match readSections grammar alternatives text text.length text with
    | .error e => .error e
    | .ok tokens => Token.parent? .expression tokens

/-- The first section of a text, and what follows it. It has to end at the first
semicolon there is, quoted or not, or at the end of the text. -/
def firstSection? (grammar : Ebnf.Grammar Terminal) (input : List Char) :
    Option (Token × List Char) :=
  let rest := input.dropWhile (· != ';')
  Part.sections.findSome? fun part =>
    match (readPart grammar part input).1 with
    | some (token, after) => if after.length = rest.length then some (token, after) else none
    | none => none

/-! ## The standard grammar -/

section Standard

open Ebnf Terminal

/-- **The grammar of spreadsheet patterns as a source.** Names without a rule
are terminals (`Terminal.names`); `loadGrammar?` makes `standard` of it. -/
def standardSource : String :=
  "COLOR = BRACKET_OPEN, [ WHITESPACE ], ( COLOR_NUMBER | COLOR_NAME ), [ WHITESPACE ],
           BRACKET_CLOSE ;
   CONDITION = BRACKET_OPEN, [ WHITESPACE ], CONDITION_SYMBOL, [ WHITESPACE ], CONDITION_NUMBER,
               [ WHITESPACE ], BRACKET_CLOSE ;
   PREFIX = { COLOR | CONDITION } ;
   LITERAL = QUOTED_TEXT | ESCAPE | STAR | UNDERSCORE | WHITESPACE | TEXT_LITERAL ;
   (* Comma and point only separate date and time components. *)
   DATE_TIME_LITERAL = LITERAL | \",\" | \".\" ;

   GENERAL = PREFIX, { LITERAL }, GENERAL_SYMBOL, { LITERAL } ;

   NUMBER_COMPONENT = DIGIT | DIGIT_ZERO | DIGIT_SPACE | DECIMAL_POINT | GROUP_SEPARATOR
                    | PERCENT | CURRENCY | EXPONENT | LITERAL ;
   NUMBER = PREFIX, NUMBER_COMPONENT, { NUMBER_COMPONENT } ;

   FRACTION_DIGIT = DIGIT | DIGIT_ZERO | DIGIT_SPACE ;
   FRACTION_DIGITS = FRACTION_DIGIT, { FRACTION_DIGIT } ;
   FRACTION_LEADING = QUOTED_TEXT | ESCAPE | CURRENCY | UNDERSCORE | STAR ;
   FRACTION = PREFIX, { FRACTION_LEADING }, [ FRACTION_DIGITS, WHITESPACE ],
              FRACTION_DIGITS, FRACTION_SYMBOL, ( FRACTION_DENOMINATOR | FRACTION_DIGITS ),
              { LITERAL } ;

   TEXT = PREFIX, TEXT_COMPONENT, { TEXT_COMPONENT } ;
   TEXT_COMPONENT = TEXT_PLACEHOLDER | LITERAL ;

   SECOND_FRACTION = DECIMAL_POINT, DIGIT_ZERO, { DIGIT_ZERO } ;
   DATE_COMPONENT = DAY | MONTH | YEAR | DATE_TIME_LITERAL ;
   DATE = PREFIX, DATE_COMPONENT, { DATE_COMPONENT } ;
   TIME_COMPONENT = HOUR | MONTH_OR_MINUTE | SECOND, [ SECOND_FRACTION ] | AMPM
                  | DATE_TIME_LITERAL ;
   TIME = PREFIX, TIME_COMPONENT, { TIME_COMPONENT } ;
   DATE_TIME_COMPONENT = DAY | YEAR | HOUR | MONTH_OR_MINUTE | SECOND, [ SECOND_FRACTION ]
                       | AMPM | DATE_TIME_LITERAL ;
   DATE_TIME = PREFIX, DATE_TIME_COMPONENT, { DATE_TIME_COMPONENT } ;

   EXPRESSION_SEPARATOR = SEPARATOR ;"

/-- A terminal as an expression. -/
def piece (terminal : Terminal) : Expr (Symbol Terminal) :=
  .symbol (.terminal terminal)

/-- A rule as an expression. -/
def ruleAt (index : Nat) : Expr (Symbol Terminal) :=
  .symbol (.rule index)

/-- A rule once or more often. -/
def oneOrMore (index : Nat) : List (Expr (Symbol Terminal)) :=
  [ruleAt index, .repetition (ruleAt index)]

/-- **The grammar of spreadsheet patterns**, resolved: the rules in the order of
`standardSource`, each reference the place of its rule. -/
def standard : Ebnf.Grammar Terminal where
  rules := [
    /- 0 -/ ⟨"COLOR".toList, .sequence [piece bracketOpen, .optional (piece whitespace),
      .choice [piece colourNumber, piece colourName], .optional (piece whitespace),
      piece bracketClose]⟩,
    /- 1 -/ ⟨"CONDITION".toList, .sequence [piece bracketOpen, .optional (piece whitespace),
      piece conditionSymbol, .optional (piece whitespace), piece conditionNumber,
      .optional (piece whitespace), piece bracketClose]⟩,
    /- 2 -/ ⟨"PREFIX".toList, .repetition (.choice [ruleAt 0, ruleAt 1])⟩,
    /- 3 -/ ⟨"LITERAL".toList, .choice [piece quotedText, piece escape, piece star,
      piece underscore, piece whitespace, piece textLiteral]⟩,
    /- 4 -/ ⟨"DATE_TIME_LITERAL".toList, .choice [ruleAt 3, .literal [','], .literal ['.']]⟩,
    /- 5 -/ ⟨"GENERAL".toList, .sequence [ruleAt 2, .repetition (ruleAt 3), piece generalSymbol,
      .repetition (ruleAt 3)]⟩,
    /- 6 -/ ⟨"NUMBER_COMPONENT".toList, .choice [piece digit, piece digitZero, piece digitSpace,
      piece decimalPoint, piece groupSeparator, piece percent, piece currency, piece exponent,
      ruleAt 3]⟩,
    /- 7 -/ ⟨"NUMBER".toList, .sequence (ruleAt 2 :: oneOrMore 6)⟩,
    /- 8 -/ ⟨"FRACTION_DIGIT".toList, .choice [piece digit, piece digitZero, piece digitSpace]⟩,
    /- 9 -/ ⟨"FRACTION_DIGITS".toList, .sequence (oneOrMore 8)⟩,
    /- 10 -/ ⟨"FRACTION_LEADING".toList, .choice [piece quotedText, piece escape, piece currency,
      piece underscore, piece star]⟩,
    /- 11 -/ ⟨"FRACTION".toList, .sequence [ruleAt 2, .repetition (ruleAt 10),
      .optional (.sequence [ruleAt 9, piece whitespace]), ruleAt 9, piece fractionSymbol,
      .choice [piece fractionDenominator, ruleAt 9], .repetition (ruleAt 3)]⟩,
    /- 12 -/ ⟨"TEXT".toList, .sequence (ruleAt 2 :: oneOrMore 13)⟩,
    /- 13 -/ ⟨"TEXT_COMPONENT".toList, .choice [piece textPlaceholder, ruleAt 3]⟩,
    /- 14 -/ ⟨"SECOND_FRACTION".toList, .sequence [piece decimalPoint, piece digitZero,
      .repetition (piece digitZero)]⟩,
    /- 15 -/ ⟨"DATE_COMPONENT".toList, .choice [piece day, piece month, piece year, ruleAt 4]⟩,
    /- 16 -/ ⟨"DATE".toList, .sequence (ruleAt 2 :: oneOrMore 15)⟩,
    /- 17 -/ ⟨"TIME_COMPONENT".toList, .choice [piece hour, piece monthOrMinute,
      .sequence [piece second, .optional (ruleAt 14)], piece amPm, ruleAt 4]⟩,
    /- 18 -/ ⟨"TIME".toList, .sequence (ruleAt 2 :: oneOrMore 17)⟩,
    /- 19 -/ ⟨"DATE_TIME_COMPONENT".toList, .choice [piece day, piece year, piece hour,
      piece monthOrMinute, .sequence [piece second, .optional (ruleAt 14)], piece amPm, ruleAt 4]⟩,
    /- 20 -/ ⟨"DATE_TIME".toList, .sequence (ruleAt 2 :: oneOrMore 19)⟩,
    /- 21 -/ ⟨"EXPRESSION_SEPARATOR".toList, piece separator⟩]

end Standard

end Worksheet.Pattern
