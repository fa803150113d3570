import Worksheet.Reference.Range
import Worksheet.Reference.Label

/-!
# Selections

Whatever a reference can point at: a cell, a range, a whole column or row, or a
label that stands for one of them.
-/

namespace Worksheet

/-- **The target of a reference**: what `ofText?` makes of a text, or what a
label was defined as. -/
inductive Selection where
  /-- One cell. -/
  | cell (target : Cell)
  /-- A rectangle of cells. -/
  | range (target : CellRange)
  /-- A whole column. -/
  | column (target : Column)
  /-- A whole row. -/
  | row (target : Row)
  /-- A name. -/
  | label (target : Label)
  deriving DecidableEq

namespace Selection

/-- Two selections are the same when they are of one kind and point at the same
thing; labels are compared without regard to case. -/
protected def beq : Selection → Selection → Bool
  | .cell a, .cell b => a == b
  | .range a, .range b => a == b
  | .column a, .column b => a == b
  | .row a, .row b => a == b
  | .label a, .label b => a == b
  | _, _ => false

instance : BEq Selection := ⟨Selection.beq⟩

/-- What a selection is hashed by: its kind, and what it points at. -/
def hashed : Selection → List Int
  | .cell a => 0 :: a.hashed
  | .range a => 1 :: a.hashed
  | .column a => 2 :: a.hashed
  | .row a => 3 :: a.hashed
  | .label a => 4 :: a.hashed

/-- The cell, range or label a text names. A text with a colon is a range or
nothing. -/
def ofText? (text : List Char) : Option Selection :=
  match Cell.ofText? text with
  | .ok target => some (.cell target)
  | .error _ =>
    if text.contains ':' then (CellRange.ofText? text).toOption.map .range
    else (Label.ofText? text).toOption.map .label

/-- The cells a selection covers, when it is a cell or a range. -/
def toRange? : Selection → Option CellRange
  | .cell target => some (.single target)
  | .range target => some target
  | .column _ | .row _ | .label _ => none

/-- The text of a selection. -/
def text : Selection → List Char
  | .cell target => target.text
  | .range target => target.text
  | .column target => target.text
  | .row target => target.text
  | .label target => target.text

end Selection

end Worksheet
