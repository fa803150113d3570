import Worksheet.Number.Decimal
import Worksheet.Pattern.Token

/-!
# Terminals of the pattern grammar

The pieces a pattern text is cut into. Each terminal reads one kind of leaf from
the front of a text, and always at least one character of it.
-/

namespace Worksheet.Pattern

/-- The terminals of the pattern grammar. -/
inductive Terminal where
  | bracketOpen
  | bracketClose
  | whitespace
  | colourNumber
  | colourName
  | conditionSymbol
  | conditionNumber
  | quotedText
  | escape
  | star
  | underscore
  | textLiteral
  | generalSymbol
  | digit
  | digitZero
  | digitSpace
  | decimalPoint
  | groupSeparator
  | percent
  | currency
  | exponent
  | textPlaceholder
  | fractionSymbol
  | fractionDenominator
  | day
  | month
  | monthOrMinute
  | year
  | hour
  | second
  | amPm
  | separator
  deriving DecidableEq, Repr

namespace Terminal

/-- The names terminals have in a grammar source. -/
def names : List (String × Terminal) :=
  [("BRACKET_OPEN", bracketOpen), ("BRACKET_CLOSE", bracketClose), ("WHITESPACE", whitespace),
    ("COLOR_NUMBER", colourNumber), ("COLOR_NAME", colourName),
    ("CONDITION_SYMBOL", conditionSymbol), ("CONDITION_NUMBER", conditionNumber),
    ("QUOTED_TEXT", quotedText), ("ESCAPE", escape), ("STAR", star), ("UNDERSCORE", underscore),
    ("TEXT_LITERAL", textLiteral), ("GENERAL_SYMBOL", generalSymbol), ("DIGIT", digit),
    ("DIGIT_ZERO", digitZero), ("DIGIT_SPACE", digitSpace), ("DECIMAL_POINT", decimalPoint),
    ("GROUP_SEPARATOR", groupSeparator), ("PERCENT", percent), ("CURRENCY", currency),
    ("EXPONENT", exponent), ("TEXT_PLACEHOLDER", textPlaceholder),
    ("FRACTION_SYMBOL", fractionSymbol), ("FRACTION_DENOMINATOR", fractionDenominator),
    ("DAY", day), ("MONTH", month), ("MONTH_OR_MINUTE", monthOrMinute), ("YEAR", year),
    ("HOUR", hour), ("SECOND", second), ("AMPM", amPm), ("SEPARATOR", separator)]

/-- The terminal a name stands for. -/
def ofName? (name : List Char) : Option Terminal :=
  names.findSome? fun (spelling, terminal) =>
    if spelling.toList = name then some terminal else none

/-- Characters that stand for themselves without being quoted. -/
def literalChars : List Char :=
  ['$', '-', '+', '/', '(', ')', ':', '!', '^', '&', '\'', '~', '\x7b', '\x7d', '<', '>', '=']

/-- A given character. -/
def single (char : Char) (kind : LeafKind) : List Char → Option (LeafKind × List Char)
  | c :: rest => if c = char then some (kind, rest) else none
  | [] => none

/-- A marker and any one character after it. -/
def marked (marker : Char) (kind : Char → LeafKind) : List Char → Option (LeafKind × List Char)
  | c :: payload :: rest => if c = marker then some (kind payload, rest) else none
  | _ => none

/-- A letter once or more often, in either case. -/
def repeated (letter : Char) (kind : Nat → LeafKind) (text : List Char) :
    Option (LeafKind × List Char) :=
  let (run, rest) := Text.takeRun (fun c => c.toUpper == letter.toUpper) text
  if run.isEmpty then none else some (kind run.length, rest)

/-- A text in quotation marks; there is no way to write the mark itself. -/
def quotation : List Char → Option (LeafKind × List Char)
  | '"' :: inside =>
    match inside.dropWhile (· != '"') with
    | _ :: rest => some (.quotedText (inside.takeWhile (· != '"')), rest)
    | [] => none
  | _ => none

/-- A number that ends before the next character: digits, perhaps with a sign
before them and a point among them. -/
def signedNumber (text : List Char) : Option (LeafKind × List Char) :=
  let (negative, unsigned) :=
    match text with
    | '-' :: rest => (true, rest)
    | _ => (false, text)
  let (whole, afterWhole) := Text.takeRun Char.isDigit unsigned
  let (fraction, rest) :=
    match afterWhole with
    | '.' :: afterPoint => Text.takeRun Char.isDigit afterPoint
    | _ => ([], afterWhole)
  if whole.isEmpty && fraction.isEmpty then none
  else
    let size := Number.ofDigits whole fraction 0
    some (.conditionNumber (if negative then -size else size), rest)

/-- A denominator: a number below `2 ^ 32` that does not start with a zero. -/
def denominator (text : List Char) : Option (LeafKind × List Char) :=
  let (digits, rest) := Text.takeRun Char.isDigit text
  let value := Text.digitsValue digits
  if digits.isEmpty || digits.head? == some '0' || 2 ^ 32 ≤ value then none
  else some (.fractionDenominator value, rest)

/-- The word for a colour of the palette and its number. -/
def paletteColour (text : List Char) : Option (LeafKind × List Char) :=
  match Text.dropIgnoringCase? "Color".toList text with
  | none => none
  | some numbered =>
    let (digits, rest) := Text.takeRun Char.isDigit numbered
    let number := Text.digitsValue digits
    if digits.isEmpty || number < 1 || Colour.maxNumber < number then none
    else some (.colourNumber number, rest)

/-- The exponent mark, which has a sign. -/
def exponentMark : List Char → Option (LeafKind × List Char)
  | e :: sign :: rest =>
    if (e = 'E' ∨ e = 'e') ∧ (sign = '+' ∨ sign = '-') then some (.exponent, rest) else none
  | _ => none

/-- **The leaf a terminal reads from the front of a text**, and what follows it.
No terminal reads an empty text. -/
def scan? : Terminal → List Char → Option (LeafKind × List Char)
  | bracketOpen => single '[' .bracketOpen
  | bracketClose => single ']' .bracketClose
  | digit => single '#' .digit
  | digitZero => single '0' .digitZero
  | digitSpace => single '?' .digitSpace
  | decimalPoint => single '.' .decimalPoint
  | groupSeparator => single ',' .groupSeparator
  | percent => single '%' .percent
  | currency => single '$' .currency
  | textPlaceholder => single '@' .textPlaceholder
  | fractionSymbol => single '/' .fractionSymbol
  | separator => single ';' .separator
  | whitespace => repeated ' ' fun _ => .whitespace
  | textLiteral => fun
    | c :: rest => if c ∈ literalChars then some (.textLiteral [c], rest) else none
    | [] => none
  | quotedText => quotation
  | escape => marked '\\' .escape
  | star => marked '*' .star
  | underscore => marked '_' .underscore
  | generalSymbol => fun text =>
    (Text.dropIgnoringCase? "General".toList text).map (.general, ·)
  | exponent => exponentMark
  | fractionDenominator => denominator
  | conditionSymbol => fun text =>
    (Comparison.scan? text).map fun (comparison, rest) => (.conditionSymbol comparison, rest)
  | conditionNumber => signedNumber
  | colourNumber => paletteColour
  | colourName => fun text =>
    Colour.named.findSome? fun (colour, name) =>
      (Text.dropIgnoringCase? name text).map (.colourName colour, ·)
  | day => repeated 'd' .day
  | month => repeated 'm' .month
  | monthOrMinute => repeated 'm' .monthOrMinute
  | year => repeated 'y' .year
  | hour => repeated 'h' .hour
  | second => repeated 's' .second
  | amPm => fun text =>
    ((Text.dropIgnoringCase? "AM/PM".toList text).or
      (Text.dropIgnoringCase? "A/P".toList text)).map (.amPm, ·)

end Terminal

end Worksheet.Pattern
