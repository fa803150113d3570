import Worksheet.Pattern.Basic

/-!
# What a section says

The parts of a section that every formatter and reader looks at: its colour, its
condition, and the leaves that are left when those two are taken away. Digit
placeholders are told apart by what they show when they have no digit of their
own.
-/

namespace Worksheet.Pattern

/-- The colour a leaf names. -/
def LeafKind.colour? : LeafKind → Option Colour
  | .colourName colour => some colour
  | .colourNumber number => some (.numbered number)
  | _ => none

/-- The colour a section asks for first. -/
def colour? (part : Token) : Option Colour :=
  (part.children.filter fun child => child.parentKind? == some .colour).flatMap
    Token.children |>.findSome? fun leaf => leaf.leafKind?.bind LeafKind.colour?

/-- The number a leaf compares with. -/
def LeafKind.target? : LeafKind → Option Float
  | .conditionNumber target => some target
  | _ => none

/-- The condition a section states first. -/
def condition? (part : Token) : Option (Comparison × Float) :=
  part.children.findSome? fun child =>
    match child.parentKind? with
    | some (.condition comparison) =>
      (child.children.findSome? fun leaf => leaf.leafKind?.bind LeafKind.target?).map
        (comparison, ·)
    | _ => none

/-- Whether a node is a block in brackets. -/
def ParentKind.isBlock : ParentKind → Bool
  | .colour | .condition _ => true
  | _ => false

/-- The leaves of a section outside its blocks, which is where `colour?` and
`condition?` look. -/
def contentLeaves (part : Token) : List Token :=
  part.children.flatMap fun child => child.leavesSkipping ParentKind.isBlock

/-- A place for a digit. -/
inductive Placeholder where
  /-- Shows nothing when it has no digit. -/
  | optional
  /-- Shows a zero when it has no digit. -/
  | zero
  /-- Shows a space when it has no digit. -/
  | space
  deriving DecidableEq, Repr

namespace Placeholder

/-- The placeholder a leaf is. -/
def ofLeaf? : LeafKind → Option Placeholder
  | .digit => some .optional
  | .digitZero => some .zero
  | .digitSpace => some .space
  | _ => none

/-- What a placeholder shows when it has no digit. -/
def padding : Placeholder → List Char
  | .optional => []
  | .zero => ['0']
  | .space => [' ']

/-- What a placeholder shows for the digit it has, or for none. -/
def slot (placeholder : Placeholder) : Option Char → List Char
  | some digit => [digit]
  | none => placeholder.padding

/-- **Digits laid out over placeholders from the right**, a slot for each
placeholder. The first slot takes every digit for which there is no room, so
none is lost. -/
def fillRight (digits : List Char) (placeholders : List Placeholder) : List (List Char) :=
  let overflow := digits.length - placeholders.length
  let aligned := List.replicate (placeholders.length - digits.length) none
    ++ (digits.drop overflow).map some
  match List.zipWith slot placeholders aligned with
  | [] => []
  | first :: slots => (digits.take overflow ++ first) :: slots

end Placeholder

end Worksheet.Pattern
