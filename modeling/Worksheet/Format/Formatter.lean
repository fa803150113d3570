import Worksheet.Format.DateTime
import Worksheet.Format.Fraction
import Worksheet.Format.General
import Worksheet.Format.Number
import Worksheet.Value.Basic

/-!
# Formatters

A formatter is what a pattern for output is compiled to. A number format chooses
among its sections: by their conditions if any section has one, and by sign
otherwise. A date, time or text format has one section, which may be empty.
-/

namespace Worksheet.Format

open Pattern

/-- A text to show, and the colour to show it in. -/
structure FormattedText where
  /-- The text. -/
  text : List Char
  /-- The colour, if one is asked for. -/
  colour : Option Colour
  deriving DecidableEq

/-! ## Text sections -/

/-- A piece of a text section. -/
inductive TextPiece where
  /-- The text to show. -/
  | value
  | literal (text : List Char)
  deriving DecidableEq

/-- The piece a leaf of a text section is. -/
def TextPiece.ofLeaf? : Token → Option TextPiece
  | .leaf .textPlaceholder _ => some .value
  | .leaf (.underscore _) _ => some (.literal [' '])
  | .leaf kind text => (kind.literal? text).map .literal
  | .parent .. => none

/-- A text section, ready to show texts. -/
structure TextSection where
  /-- The pieces in order. -/
  pieces : List TextPiece
  /-- The colour. -/
  colour : Option Colour
  deriving DecidableEq

namespace TextSection

/-- The section that shows a text as it is. -/
def plain : TextSection :=
  ⟨[.value], none⟩

/-- The section that shows nothing. -/
def empty : TextSection :=
  ⟨[], none⟩

/-- The section a tree stands for; no tree is an empty section. -/
def ofTree? : Option Token → TextSection
  | some tree => ⟨(contentLeaves tree).filterMap TextPiece.ofLeaf?, colour? tree⟩
  | none => empty

/-- A text as the section shows it. -/
def format (layout : TextSection) (text : List Char) : FormattedText :=
  ⟨layout.pieces.flatMap fun
    | .value => text
    | .literal literal => literal, layout.colour⟩

end TextSection

/-! ## Number sections -/

/-- When a section is chosen. A section states one itself, or it is given one by
its place (`impliedCondition`). -/
inductive Condition where
  /-- For every number. -/
  | always
  /-- When the number compares so with a target. -/
  | compares (comparison : Comparison) (target : Float)

/-- Whether a condition holds of a number. -/
def Condition.holds : Condition → Float → Bool
  | always, _ => true
  | compares comparison target, value => comparison.test value target

/-- How a section shows a number. -/
inductive Body where
  | number (layout : NumberSection)
  | fraction (layout : FractionSection)
  | general (pieces : List General.Piece)
  /-- Shows nothing. -/
  | empty

namespace Body

/-- How the section of a tree shows a number; no tree is an empty section. -/
def ofTree? : Option Token → Body
  | none => empty
  | some tree =>
    match tree.parentKind? with
    | some .fraction => fraction (.ofLeaves (contentLeaves tree))
    | some .general => general ((contentLeaves tree).filterMap General.pieceOf?)
    | _ => number (.ofLeaves (contentLeaves tree))

/-- A number as a section shows it. -/
def format (signs : NumberSigns) (value : Float) : Body → List Char
  | number layout => layout.format signs value
  | fraction layout => layout.format signs value
  | general pieces => General.formatPieces signs value pieces
  | empty => []

end Body

/-- A section of a number format. -/
structure Section where
  /-- When it is chosen. -/
  condition : Condition
  /-- Whether the number is shown without its sign; the section stands for the
  sign itself. -/
  unsigned : Bool
  /-- The colour. -/
  colour : Option Colour
  /-- How the number is shown. -/
  body : Body

/-- When a section without conditions is chosen, by its place among so many
sections, and whether it shows the number without its sign. Two sections are for
numbers from zero up and for negative ones, three for positive numbers, negative
ones and zero. -/
def impliedCondition (count index : Nat) : Condition × Bool :=
  match count, index with
  | 2, 0 => (.compares .greaterEqual 0, false)
  | 2, 1 => (.compares .less 0, true)
  | 3, 0 => (.compares .greater 0, false)
  | 3, 1 => (.compares .less 0, true)
  | 3, 2 => (.compares .equal 0, false)
  | _, _ => (.always, false)

/-- The section at a place among so many. When any of them states a condition,
one that does not is for every number; otherwise `impliedCondition` says what it
is for. -/
def sectionAt (count : Nat) (anyStated : Bool) (index : Nat) (tree : Option Token) : Section :=
  let (condition, unsigned) :=
    match tree.bind condition? with
    | some (comparison, target) => (.compares comparison target, false)
    | none => if anyStated then (.always, false) else impliedCondition count index
  { condition, unsigned, colour := tree.bind colour?, body := .ofTree? tree }

/-- A number format. -/
structure NumberFormat where
  /-- The sections for numbers. -/
  sections : List Section
  /-- The section for texts, if texts are shown. -/
  text : Option TextSection

namespace NumberFormat

/-- Whether a section is a text section. -/
def isText (tree : Option Token) : Bool :=
  tree.any fun tree => tree.parentKind? == some .text

/-- The sections of a number format without the one for texts. The last section
is for texts when it is a text section or the fourth. -/
def splitText (trees : List (Option Token)) : List (Option Token) × Option TextSection :=
  let last := trees.getLast?.join
  if isText last || trees.length == Kind.numberSections then
    (trees.dropLast, some (.ofTree? last))
  else (trees, if 1 < trees.length then some .plain else none)

/-- The number format some sections make up. -/
def ofTrees (trees : List (Option Token)) : NumberFormat :=
  let (trees, text) := splitText trees
  let anyStated := trees.any fun tree => (tree.bind condition?).isSome
  ⟨trees.mapIdx (sectionAt trees.length anyStated), text⟩

/-- **The section a number is shown by**: the first whose condition holds, if
there is one. -/
def choose? (format : NumberFormat) (value : Float) : Option Section :=
  format.sections.find? fun part => part.condition.holds value

/-- A number as its section shows it; nothing when no section is for it. -/
def formatNumber? (format : NumberFormat) (signs : NumberSigns) (value : Float) :
    Option FormattedText :=
  (format.choose? value).map fun part =>
    ⟨part.body.format signs (if part.unsigned then value.abs else value), part.colour⟩

/-- A text as the text section shows it. -/
def formatText? (format : NumberFormat) (text : List Char) : Option FormattedText :=
  format.text.map fun part => part.format text

end NumberFormat

/-! ## Formatters -/

/-- **A compiled pattern for output**: sections for numbers, the components of a
moment, or a section for texts. Compiling is `ofPattern?`, and `format?` is all
that is done with the result. -/
inductive Formatter where
  | number (format : NumberFormat)
  | moment (components : List Component) (colour : Option Colour)
  | text (part : TextSection)

namespace Formatter

/-- The formatter of a pattern, if it is for output. -/
def ofPattern? (pattern : Pattern) : Except PatternError Formatter :=
  let first := pattern.sections.head?.join
  match pattern.kind with
  | .dateParse | .dateTimeParse | .numberParse | .timeParse =>
    .error (.wrongKind pattern.kind .formatter)
  | .numberFormat =>
    if Kind.numberSections < pattern.sections.length then
      .error (.sectionCount pattern.kind pattern.sections.length Kind.numberSections)
    else .ok (number (.ofTrees pattern.sections))
  | .textFormat => .ok (text (.ofTree? first))
  | .dateFormat | .dateTimeFormat | .timeFormat =>
    match first with
    | some tree =>
      .ok (moment (Component.ofLeaves (pattern.kind == .timeFormat) (contentLeaves tree))
        (colour? tree))
    | none => .ok (moment [] none)

/-- The number a value is shown as by a number format. -/
def numberOf? : Value → Option Float
  | .int a => (Value.int a).serial?
  | .number a => some a
  | .date a => (Value.date a).serial?
  | .dateTime a => (Value.dateTime a).serial?
  | .time a => (Value.time a).serial?
  | _ => none

/-- The moment a value is shown as by a date or time format. -/
def momentOf? : Value → Option DateTime
  | .date a => some ⟨a, .midnight⟩
  | .dateTime a => some a
  | .time a => some ⟨Serial.epoch, a⟩
  | .int a => Serial.toDateTime? (Number.ofInt a)
  | .number a => Serial.toDateTime? a
  | _ => none

/-- **A value as a formatter shows it**; nothing when the formatter is not for
such values, or has no section for this one. -/
def format? (formatter : Formatter) (locale : Locale) (value : Value) : Option FormattedText :=
  match formatter, value with
  | text part, .text a => some (part.format a)
  | text _, _ => none
  | number format, .text a => format.formatText? a
  | number format, value =>
    (numberOf? value).bind fun a => format.formatNumber? locale.numbers a
  | moment components colour, value =>
    (momentOf? value).map fun a => ⟨momentText locale components a, colour⟩

end Formatter

end Worksheet.Format
