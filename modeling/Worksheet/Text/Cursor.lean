import Worksheet.Text.Basic

/-!
# Cursors

A reader that keeps its place in a text as a byte offset cuts the text there
whenever it looks ahead. The offset of such a cursor is a plain number, which
nothing prevents from falling inside a character or past the end: a cut at such
an offset breaks (`BrokenCut`), and there is no answer then.

What is eaten is told as the offset behind it, so that a reader that has failed
goes on from the offset that it kept. The readers of numbers, dates and times
are built from these operations in `Worksheet.Proofs.Read.Offsets`, and shown
there never to break a cut.
-/

namespace Worksheet.Text

/-- A text was cut at an offset that is inside a character or past the end. -/
structure BrokenCut where
  /-- The offset. -/
  offset : Nat
  deriving DecidableEq, Repr

/-- The text from an offset on: `fromByte?`, with the cut breaking where there
is no such rest. -/
def cutFrom (whole : List Char) (offset : Nat) : Except BrokenCut (List Char) :=
  match fromByte? offset whole with
  | some rest => .ok rest
  | none => .error ⟨offset⟩

/-- The text up to an offset. -/
def cutTo (whole : List Char) (offset : Nat) : Except BrokenCut (List Char) :=
  (cutFrom whole offset).map (before whole)

/-- Whether a text may be cut at an offset. -/
def isBoundary (whole : List Char) (offset : Nat) : Bool :=
  (fromByte? offset whole).isSome

/-- Whether an offset is at the end of a text or behind it. -/
def isAtEnd (whole : List Char) (offset : Nat) : Bool :=
  byteLength whole ≤ offset

/-- The next character at an offset. -/
def peekAt (whole : List Char) (offset : Nat) : Except BrokenCut (Option Char) :=
  (cutFrom whole offset).map List.head?

/-- The offset behind a character, if it is the next one. -/
def eatAt (whole : List Char) (c : Char) (offset : Nat) : Except BrokenCut (Option Nat) :=
  (peekAt whole offset).map fun next => if next = some c then some (offset + c.utf8Size) else none

/-- The offset behind a name in either case, if it comes next. The text is cut
behind as many bytes as the name has only when that is known to be a boundary. -/
def eatTextAt (whole name : List Char) (offset : Nat) : Except BrokenCut (Option Nat) := do
  let rest ← cutFrom whole offset
  if byteLength name ≤ byteLength rest && isBoundary rest (byteLength name) then
    let front ← cutTo rest (byteLength name)
    return if equalIgnoringCase front name then some (offset + byteLength name) else none
  else return none

end Worksheet.Text
