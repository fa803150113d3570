import Worksheet.Pattern.Grammar

/-!
# Patterns

A pattern is a tree together with the purpose it is for. `Pattern.ofToken?` is
the way in: it sees to it that the tree has sections the purpose allows, no more
of them than it allows, and in them nothing that only makes sense elsewhere.
`Pattern.ofText?` reads a text by the sections of the purpose first.
-/

namespace Worksheet

namespace Pattern

namespace Kind

/-- Every purpose. -/
def all : List Kind :=
  [dateFormat, dateParse, dateTimeFormat, dateTimeParse, numberFormat, numberParse, textFormat,
    timeFormat, timeParse]

/-- The parts tried, in order, for each section. -/
def alternatives : Kind → List Part
  | dateFormat | dateParse => [.date]
  | dateTimeFormat | dateTimeParse => [.dateTime]
  | timeFormat | timeParse => [.time]
  | numberFormat => [.general, .fraction, .number, .text]
  | numberParse => [.number]
  | textFormat => [.text]

/-- Whether a pattern turns text into values. Every section of it is then an
alternative. -/
def isParse : Kind → Bool
  | dateParse | dateTimeParse | numberParse | timeParse => true
  | _ => false

/-- The sections of a number format: positive, negative, zero and text. -/
def numberSections : Nat := 4

/-- The most sections a pattern may have, if there is a limit. -/
def maxSections? : Kind → Option Nat
  | numberFormat => some numberSections
  | dateFormat | dateTimeFormat | timeFormat | textFormat => some 1
  | dateParse | dateTimeParse | numberParse | timeParse => none

/-- The sections a pattern may have. -/
def allowsSection (kind : Kind) (part : ParentKind) : Bool :=
  match kind with
  | dateFormat | dateParse => part == .date
  | dateTimeFormat | dateTimeParse => part == .dateTime
  | timeFormat | timeParse => part == .time
  | numberFormat => [.general, .fraction, .number, .text].contains part
  | numberParse => part == .number
  | textFormat => part == .text

/-- The leaves a section may have. Fillers are for output only, and a place for
text only where text is formatted. -/
def allowsLeaf (kind : Kind) : LeafKind → Bool
  | .star _ | .underscore _ => !kind.isParse
  | .textPlaceholder => kind == numberFormat || kind == textFormat
  | _ => true

/-- The blocks a section may have. Colours and conditions are for output only. -/
def allowsBlock (kind : Kind) : ParentKind → Bool
  | .colour | .condition _ => !kind.isParse
  | _ => true

end Kind

/-- The sections among the children of a pattern: between separators, the last
child that is no separator, or nothing. A child in front of another one is lost
here, and is not looked at by `fault?`. -/
def sectionsFrom (current : Option Token) : List Token → List (Option Token)
  | [] => [current]
  | child :: children =>
    if child.leafKind? == some .separator then current :: sectionsFrom none children
    else sectionsFrom (some child) children

/-- The sections of a pattern tree. -/
def Token.sections (token : Token) : List (Option Token) :=
  sectionsFrom none token.children

mutual

/-- The first node that has no place in a section of a pattern for a purpose: a
leaf that is not allowed (`allowsLeaf`), or a block (`allowsBlock`). -/
def intruder? (kind : Kind) : Token → Option Token
  | .leaf leaf text => if kind.allowsLeaf leaf then none else some (.leaf leaf text)
  | .parent block children text =>
    if kind.allowsBlock block then intruderIn? kind children
    else some (.parent block children text)

/-- The first node among some trees that has no place in a section of a pattern
for a purpose. -/
def intruderIn? (kind : Kind) : List Token → Option Token
  | [] => none
  | token :: tokens => (intruder? kind token).or (intruderIn? kind tokens)

end

/-- Whether a leaf asks for a number, which the text section of a number format
cannot show. -/
def LeafKind.isNumeric (kind : LeafKind) : Bool :=
  kind.isDigit ||
    match kind with
    | .decimalPoint | .groupSeparator | .percent | .exponent | .general => true
    | _ => false

/-- The first leaf of a section that asks for a number. -/
def numericLeaf? (token : Token) : Option Token :=
  token.leaves.find? fun leaf => leaf.leafKind?.any LeafKind.isNumeric

/-- What does not fit in a section, the last one or one at a place before it. -/
def sectionFault? (kind : Kind) (index : Nat) (isLast : Bool) (token : Token) : Option Token :=
  match token.parentKind? with
  | none => some token
  | some sectionKind =>
    if !kind.allowsSection sectionKind then some token
    else if kind == .numberFormat && sectionKind == .text && !isLast then some token
    else
      let isText := sectionKind == .text || index == Kind.numberSections - 1
      let numeric := if kind == .numberFormat && isText then numericLeaf? token else none
      numeric.or (intruderIn? kind token.children)

/-- What does not fit in the sections from a place on. -/
def sectionsFault? (kind : Kind) (index : Nat) : List (Option Token) → Option Token
  | [] => none
  | none :: sections => sectionsFault? kind (index + 1) sections
  | some token :: sections =>
    (sectionFault? kind index sections.isEmpty token).or
      (sectionsFault? kind (index + 1) sections)

/-- **Why a tree is no pattern for a purpose**, if it is none: too many
sections, a section of another kind, or something in one that does not fit
(`sectionFault?`). -/
def fault? (kind : Kind) (token : Token) : Option PatternError :=
  if token.parentKind? != some .expression then some (.invalidToken kind token.text)
  else
    let sections := token.sections
    match kind.maxSections? with
    | some max =>
      if max < sections.length then some (.sectionCount kind sections.length max)
      else (sectionsFault? kind 0 sections).map fun bad => .invalidToken kind bad.text
    | none => (sectionsFault? kind 0 sections).map fun bad => .invalidToken kind bad.text

end Pattern

/-- **A pattern: a tree, and what it is for.** Those made by `ofToken?` or
`ofText?` have no `fault?`. -/
structure Pattern where
  /-- What the pattern is for. -/
  kind : Pattern.Kind
  /-- The tree. -/
  token : Pattern.Token

namespace Pattern

/-- The pattern for a purpose with a tree, if the tree fits. -/
def ofToken? (kind : Kind) (token : Token) : Except PatternError Pattern :=
  match fault? kind token with
  | some fault => .error fault
  | none => .ok ⟨kind, token⟩

/-- **The pattern for a purpose that a text spells**: read by the `standard`
grammar, with the `alternatives` of the purpose for each section, and then taken
as a tree. -/
def ofText? (kind : Kind) (text : List Char) : Except PatternError Pattern :=
  match wholePattern? standard kind.alternatives text with
  | .error e => .error (.text e)
  | .ok token => ofToken? kind token

/-- The text of a pattern. -/
def text (pattern : Pattern) : List Char :=
  pattern.token.text

/-- The sections of a pattern in order; an empty section is nothing. -/
def sections (pattern : Pattern) : List (Option Token) :=
  pattern.token.sections

instance : BEq Pattern where
  beq a b := a.kind == b.kind && a.token == b.token

end Pattern

end Worksheet
