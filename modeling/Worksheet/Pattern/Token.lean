import Worksheet.Pattern.Error

/-!
# Pattern trees

A pattern is read into a tree whose leaves are the pieces of its text and whose
inner nodes are sections and bracketed blocks. Every node carries its text. The
constructors `Token.leaf?` and `Token.parent?` see to it that no text is empty
and that the text of an inner node is that of its children in order.
-/

namespace Worksheet.Pattern

/-- A comparison of two numbers. -/
inductive Comparison where
  | equal
  | notEqual
  | greater
  | greaterEqual
  | less
  | lessEqual
  deriving DecidableEq, Repr

namespace Comparison

/-- The spellings of comparisons, those that begin another after it. -/
def spellings : List (List Char × Comparison) :=
  [(['<', '='], lessEqual), (['>', '='], greaterEqual), (['<', '>'], notEqual),
    (['!', '='], notEqual), (['<'], less), (['>'], greater), (['='], equal)]

/-- The comparison at the start of a text, and what follows it. -/
def scan? (text : List Char) : Option (Comparison × List Char) :=
  spellings.findSome? fun (spelling, comparison) =>
    (Text.drop? spelling text).map (comparison, ·)

/-- Whether a value compares so with a target. -/
def test (comparison : Comparison) (value target : Float) : Bool :=
  match comparison with
  | equal => value == target
  | notEqual => value != target
  | greater => target < value
  | greaterEqual => target ≤ value
  | less => value < target
  | lessEqual => value ≤ target

end Comparison

/-- A colour a section asks for. -/
inductive Colour where
  | black
  | blue
  | cyan
  | green
  | magenta
  | red
  | white
  | yellow
  /-- A colour by its number in the palette. -/
  | numbered (number : Nat)
  deriving DecidableEq, Repr

namespace Colour

/-- The colours that have a name, and their names. -/
def named : List (Colour × List Char) :=
  [(black, "Black".toList), (blue, "Blue".toList), (cyan, "Cyan".toList),
    (green, "Green".toList), (magenta, "Magenta".toList), (red, "Red".toList),
    (white, "White".toList), (yellow, "Yellow".toList)]

/-- The highest number in the palette. -/
def maxNumber : Nat := 56

end Colour

/-- The kinds of leaves. Date and time letters carry how often they are
repeated. -/
inductive LeafKind where
  | day (count : Nat)
  | month (count : Nat)
  /-- A month or a minute, told apart by the letters around it. -/
  | monthOrMinute (count : Nat)
  | year (count : Nat)
  | hour (count : Nat)
  | second (count : Nat)
  | amPm
  /-- A digit that is left out when it is not needed. -/
  | digit
  /-- A digit that is always written. -/
  | digitZero
  /-- A digit that leaves a space when it is not needed. -/
  | digitSpace
  | decimalPoint
  | groupSeparator
  | percent
  | currency
  | exponent
  | textPlaceholder
  | quotedText (text : List Char)
  | escape (char : Char)
  /-- A character that would fill the width of a cell. -/
  | star (char : Char)
  /-- A space as wide as a character. -/
  | underscore (char : Char)
  | whitespace
  | textLiteral (text : List Char)
  | fractionSymbol
  | fractionDenominator (value : Nat)
  | bracketOpen
  | bracketClose
  | colourName (colour : Colour)
  | colourNumber (number : Nat)
  | conditionSymbol (comparison : Comparison)
  | conditionNumber (value : Float)
  | separator
  | general
  deriving BEq

namespace LeafKind

/-- Whether a leaf is a placeholder for a digit. -/
def isDigit : LeafKind → Bool
  | digit | digitZero | digitSpace => true
  | _ => false

/-- The text a leaf puts into the output as it is. -/
def literal? (kind : LeafKind) (text : List Char) : Option (List Char) :=
  match kind with
  | quotedText literal | textLiteral literal => some literal
  | escape char => some [char]
  | whitespace => some text
  | _ => none

end LeafKind

/-- The kinds of inner nodes. -/
inductive ParentKind where
  | colour
  | condition (comparison : Comparison)
  | date
  | dateTime
  | time
  | number
  | fraction
  | text
  | general
  /-- A whole pattern. -/
  | expression
  deriving DecidableEq, Repr

/-- **A node of a pattern tree.** A node made by `leaf?` or `parent?` has a
text; one that was loaded from stored data is as it was stored. -/
inductive Token where
  /-- A piece of the text. -/
  | leaf (kind : LeafKind) (text : List Char)
  /-- A section, a block or the whole pattern. -/
  | parent (kind : ParentKind) (children : List Token) (text : List Char)

namespace Token

/-- The text of a node. -/
def text : Token → List Char
  | .leaf _ text | .parent _ _ text => text

/-- The kind of a leaf. -/
def leafKind? : Token → Option LeafKind
  | .leaf kind _ => some kind
  | .parent .. => none

/-- The kind of an inner node. -/
def parentKind? : Token → Option ParentKind
  | .leaf .. => none
  | .parent kind _ _ => some kind

/-- The children of a node. -/
def children : Token → List Token
  | .leaf .. => []
  | .parent _ children _ => children

/-- The leaf of a kind with a text that is not empty. -/
def leaf? (kind : LeafKind) (text : List Char) : Except PatternTextError Token :=
  if text.isEmpty then .error .emptyToken else .ok (.leaf kind text)

/-- The text of some nodes, one after the other. -/
def joinedText (tokens : List Token) : List Char :=
  tokens.flatMap text

/-- The inner node over some children, whose text is theirs (`joinedText`) and
must not be empty. -/
def parent? (kind : ParentKind) (children : List Token) : Except PatternTextError Token :=
  let text := joinedText children
  if text.isEmpty then .error .emptyToken else .ok (.parent kind children text)

mutual

/-- The leaves below a node in source order, those below inner nodes of some
kinds left out. -/
def leavesSkipping (skip : ParentKind → Bool) : Token → List Token
  | .leaf kind text => [.leaf kind text]
  | .parent kind children _ => if skip kind then [] else leavesSkippingAll skip children

/-- The leaves below some nodes, those below inner nodes of some kinds left
out. -/
def leavesSkippingAll (skip : ParentKind → Bool) : List Token → List Token
  | [] => []
  | token :: tokens => leavesSkipping skip token ++ leavesSkippingAll skip tokens

end

/-- The leaves below a node in source order. -/
def leaves (token : Token) : List Token :=
  token.leavesSkipping fun _ => false

mutual

/-- Two trees are equal when their kinds, texts and children are; numbers
compare as numbers. -/
protected def beq : Token → Token → Bool
  | .leaf kind text, .leaf kind' text' => kind == kind' && text == text'
  | .parent kind children text, .parent kind' children' text' =>
    kind == kind' && Token.beqAll children children' && text == text'
  | _, _ => false

/-- Two lists of trees are equal when their members are, in order. -/
protected def beqAll : List Token → List Token → Bool
  | [], [] => true
  | token :: tokens, token' :: tokens' => Token.beq token token' && Token.beqAll tokens tokens'
  | _, _ => false

end

instance : BEq Token := ⟨Token.beq⟩

end Token

end Worksheet.Pattern
