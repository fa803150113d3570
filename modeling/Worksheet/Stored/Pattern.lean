import Worksheet.Pattern.Basic
import Worksheet.Stored.Tree

/-!
# Stored patterns

A pattern is stored with its purpose and its tree. Reading one back takes the
tree as it is: whether it fits the purpose is not looked at again.
-/

namespace Worksheet.Pattern

namespace Comparison

/-- Every comparison. -/
def all : List Comparison :=
  [equal, notEqual, greater, greaterEqual, less, lessEqual]

/-- The name a comparison is stored by. -/
def storedName : Comparison → String
  | equal => "Equal"
  | notEqual => "NotEqual"
  | greater => "Greater"
  | greaterEqual => "GreaterEqual"
  | less => "Less"
  | lessEqual => "LessEqual"

/-- A comparison, stored. -/
def toDatum (comparison : Comparison) : Datum :=
  .name comparison.storedName

/-- A stored comparison. -/
def ofDatum? : Datum → Option Comparison :=
  Datum.choice? all storedName

end Comparison

namespace Colour

/-- A colour, stored. -/
def toDatum : Colour → Datum
  | numbered number => .tagged "Number" (.ofNat number)
  | black => .name "Black"
  | blue => .name "Blue"
  | cyan => .name "Cyan"
  | green => .name "Green"
  | magenta => .name "Magenta"
  | red => .name "Red"
  | white => .name "White"
  | yellow => .name "Yellow"

/-- A stored colour. -/
def ofDatum? (datum : Datum) : Option Colour :=
  match datum.case? with
  | some ("Number", number) => (number.nat? 32).map numbered
  | some (name, .null) => (named.find? fun entry => entry.2 == name.toList).map Prod.fst
  | _ => none

end Colour

namespace LeafKind

/-- The kinds of leaves that hold nothing. -/
def plain : List LeafKind :=
  [amPm, digit, digitZero, digitSpace, decimalPoint, groupSeparator, percent, currency, exponent,
    textPlaceholder, whitespace, fractionSymbol, bracketOpen, bracketClose, separator, general]

/-- A kind of leaf, stored. -/
def form : LeafKind → Datum.KindForm
  | day count => ("Day", .ofNat count)
  | month count => ("Month", .ofNat count)
  | monthOrMinute count => ("MonthOrMinute", .ofNat count)
  | year count => ("Year", .ofNat count)
  | hour count => ("Hour", .ofNat count)
  | second count => ("Second", .ofNat count)
  | amPm => ("AmPm", .null)
  | digit => ("Digit", .null)
  | digitZero => ("DigitZero", .null)
  | digitSpace => ("DigitSpace", .null)
  | decimalPoint => ("DecimalPoint", .null)
  | groupSeparator => ("GroupSeparator", .null)
  | percent => ("Percent", .null)
  | currency => ("Currency", .null)
  | exponent => ("Exponent", .null)
  | textPlaceholder => ("TextPlaceholder", .null)
  | quotedText text => ("QuotedText", .text text)
  | escape char => ("Escape", .text [char])
  | star char => ("Star", .text [char])
  | underscore char => ("Underscore", .text [char])
  | whitespace => ("Whitespace", .null)
  | textLiteral text => ("TextLiteral", .text text)
  | fractionSymbol => ("FractionSymbol", .null)
  | fractionDenominator value => ("FractionDenominator", .ofNat value)
  | bracketOpen => ("BracketOpen", .null)
  | bracketClose => ("BracketClose", .null)
  | colourName colour => ("ColorName", colour.toDatum)
  | colourNumber number => ("ColorNumber", .ofNat number)
  | conditionSymbol comparison => ("ConditionSymbol", comparison.toDatum)
  | conditionNumber value => ("ConditionNumber", .float value)
  | separator => ("Separator", .null)
  | general => ("General", .null)

/-- A stored kind of leaf. -/
def ofForm? : Datum.KindForm → Option LeafKind
  | ("Day", count) => (count.nat? 64).map day
  | ("Month", count) => (count.nat? 64).map month
  | ("MonthOrMinute", count) => (count.nat? 64).map monthOrMinute
  | ("Year", count) => (count.nat? 64).map year
  | ("Hour", count) => (count.nat? 64).map hour
  | ("Second", count) => (count.nat? 64).map second
  | ("QuotedText", text) => text.text?.map quotedText
  | ("Escape", char) => char.char?.map escape
  | ("Star", char) => char.char?.map star
  | ("Underscore", char) => char.char?.map underscore
  | ("TextLiteral", text) => text.text?.map textLiteral
  | ("FractionDenominator", value) => (value.nat? 32).map fractionDenominator
  | ("ColorName", colour) => (Colour.ofDatum? colour).map colourName
  | ("ColorNumber", number) => (number.nat? 32).map colourNumber
  | ("ConditionSymbol", comparison) => (Comparison.ofDatum? comparison).map conditionSymbol
  | ("ConditionNumber", value) => value.float?.map conditionNumber
  | (name, .null) => plain.find? fun kind => kind.form.1 = name
  | _ => none

end LeafKind

namespace ParentKind

/-- The kinds of inner nodes that hold nothing. -/
def plain : List ParentKind :=
  [colour, date, dateTime, time, number, fraction, text, general, expression]

/-- A kind of inner node, stored. -/
def form : ParentKind → Datum.KindForm
  | colour => ("Color", .null)
  | condition comparison => ("Condition", comparison.toDatum)
  | date => ("Date", .null)
  | dateTime => ("DateTime", .null)
  | time => ("Time", .null)
  | number => ("Number", .null)
  | fraction => ("Fraction", .null)
  | text => ("Text", .null)
  | general => ("General", .null)
  | expression => ("Expression", .null)

/-- A stored kind of inner node. -/
def ofForm? : Datum.KindForm → Option ParentKind
  | ("Condition", comparison) => (Comparison.ofDatum? comparison).map condition
  | (name, .null) => plain.find? fun kind => kind.form.1 = name
  | _ => none

end ParentKind

namespace Token

mutual

/-- A tree, stored. -/
def toDatum : Token → Datum
  | .leaf kind text => .ofLeaf kind.form text
  | .parent kind children text => .ofParent kind.form (toData children) text

/-- Trees, stored. -/
def toData : List Token → List Datum
  | [] => []
  | token :: tokens => token.toDatum :: toData tokens

end

/-- How trees are read back. -/
def reader : Datum.NodeReader LeafKind ParentKind Token :=
  ⟨LeafKind.ofForm?, ParentKind.ofForm?, leaf, parent⟩

/-- A stored tree. -/
def ofDatum? : Datum → Option Token :=
  reader.node?

end Token

namespace Kind

/-- The name a purpose is stored by. -/
def storedName : Kind → String
  | dateFormat => "DateFormat"
  | dateParse => "DateParse"
  | dateTimeFormat => "DateTimeFormat"
  | dateTimeParse => "DateTimeParse"
  | numberFormat => "NumberFormat"
  | numberParse => "NumberParse"
  | textFormat => "TextFormat"
  | timeFormat => "TimeFormat"
  | timeParse => "TimeParse"

end Kind

/-- A pattern, stored. -/
def toDatum (pattern : Pattern) : Datum :=
  .record [("kind", .name pattern.kind.storedName), ("token", pattern.token.toDatum)]

/-- A stored pattern. -/
def ofDatum? (datum : Datum) : Option Pattern :=
  match datum.fields? ["kind", "token"] with
  | some [kind, token] => do
    return ⟨← kind.choice? Kind.all Kind.storedName, ← Token.ofDatum? token⟩
  | _ => none

end Worksheet.Pattern
