import Worksheet.Calendar.TimeOfDay
import Worksheet.Formula.Error
import Worksheet.Formula.Operator
import Worksheet.Reference.Label
import Worksheet.Value.CellError

/-!
# Formula trees

A formula is read into a tree whose leaves are the lexemes of its text, blanks
and marks included, so that the tree gives the text back. Leaves carry what they
stand for. An entry that is not a formula is a single leaf.

The constructors `Token.leaf?` and `Token.parent?` see to it that no text is
empty and that the text of an inner node is that of its children in order.
-/

namespace Worksheet.Formula

/-- The kinds of leaves, and what they stand for. -/
inductive LeafKind where
  | number (value : Float)
  | text (value : List Char)
  | boolean (value : Bool)
  | error (kind : CellErrorKind)
  | date (value : Date)
  | dateTime (value : DateTime)
  | time (value : TimeOfDay)
  | cell (target : Cell)
  | label (target : Label)
  /-- A name before an opening parenthesis. -/
  | functionName (name : List Char)
  | mark (mark : Mark)
  | blank

namespace LeafKind

/-- Two leaves stand for the same when they are of one kind and hold the same;
numbers compare as numbers and labels without regard to case. -/
protected def beq : LeafKind → LeafKind → Bool
  | .number a, .number b => a == b
  | .text a, .text b => a == b
  | .boolean a, .boolean b => a == b
  | .error a, .error b => a == b
  | .date a, .date b => a == b
  | .dateTime a, .dateTime b => a == b
  | .time a, .time b => a == b
  | .cell a, .cell b => a == b
  | .label a, .label b => a == b
  | .functionName a, .functionName b => a == b
  | .mark a, .mark b => a == b
  | .blank, .blank => true
  | _, _ => false

instance : BEq LeafKind := ⟨LeafKind.beq⟩

/-- Whether a leaf is blank. -/
def isBlank : LeafKind → Bool
  | .blank => true
  | _ => false

/-- Whether a leaf is a given mark. -/
def isMark (expected : Mark) : LeafKind → Bool
  | .mark found => found == expected
  | _ => false

/-- The operator a leaf is the sign of. -/
def operator? : LeafKind → Option Operator
  | .mark found => found.operator?
  | _ => none

end LeafKind

/-- The kinds of inner nodes. -/
inductive ParentKind where
  /-- An equals sign and what follows it. -/
  | expression
  /-- An expression in parentheses. -/
  | group
  | negative
  | percentage
  | binary (operator : Operator)
  | range
  | call
  deriving DecidableEq, Repr

/-- A node of a formula tree. -/
inductive Token where
  /-- A lexeme, or a whole entry. -/
  | leaf (kind : LeafKind) (text : List Char)
  /-- A part of a formula. -/
  | parent (kind : ParentKind) (children : List Token) (text : List Char)

namespace Token

/-- The text of a node. -/
def text : Token → List Char
  | .leaf _ text | .parent _ _ text => text

/-- The kind of a leaf. -/
def leafKind? : Token → Option LeafKind
  | .leaf kind _ => some kind
  | .parent .. => none

/-- The kind of an inner node. -/
def parentKind? : Token → Option ParentKind
  | .leaf .. => none
  | .parent kind _ _ => some kind

/-- The children of a node. -/
def children : Token → List Token
  | .leaf .. => []
  | .parent _ children _ => children

/-- The text of some nodes, one after the other. -/
def joinedText (tokens : List Token) : List Char :=
  tokens.flatMap text

/-- The inner node over some children, whose text is theirs. `parent?` is the
way in from outside, which refuses children without any text. -/
def join (kind : ParentKind) (children : List Token) : Token :=
  .parent kind children (joinedText children)

/-- The leaf of a kind with a text that is not empty. -/
def leaf? (kind : LeafKind) (text : List Char) : Except SyntaxError Token :=
  if text.isEmpty then .error ⟨.emptyToken, none⟩ else .ok (.leaf kind text)

/-- The inner node over some children, whose text is theirs and must not be
empty. -/
def parent? (kind : ParentKind) (children : List Token) : Except SyntaxError Token :=
  if (joinedText children).isEmpty then .error ⟨.emptyToken, none⟩ else .ok (join kind children)

/-- **Whether a node is a blank or a mark**, which shape a tree and stand for
nothing. The leaves keep them; `Token.expression?` passes over them. -/
def isNoise : Token → Bool
  | .leaf .blank _ | .leaf (.mark _) _ => true
  | _ => false

mutual

/-- The leaves below a node in source order. -/
def leaves : Token → List Token
  | .leaf kind text => [.leaf kind text]
  | .parent _ children _ => leavesAll children

/-- The leaves below some nodes in source order. -/
def leavesAll : List Token → List Token
  | [] => []
  | token :: tokens => leaves token ++ leavesAll tokens

end

mutual

/-- Two trees are equal when their kinds, texts and children are; numbers
compare as numbers. -/
protected def beq : Token → Token → Bool
  | .leaf kind text, .leaf kind' text' => kind == kind' && text == text'
  | .parent kind children text, .parent kind' children' text' =>
    kind == kind' && Token.beqAll children children' && text == text'
  | _, _ => false

/-- Two lists of trees are equal when their members are, in order. -/
protected def beqAll : List Token → List Token → Bool
  | [], [] => true
  | token :: tokens, token' :: tokens' => Token.beq token token' && Token.beqAll tokens tokens'
  | _, _ => false

end

instance : BEq Token := ⟨Token.beq⟩

end Token

end Worksheet.Formula
