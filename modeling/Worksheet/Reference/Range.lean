import Worksheet.Reference.Cell

/-!
# Cell ranges

A rectangle of cells given by its top left and its bottom right corner, both
included. A range built from two cells takes the corners of the rectangle they
span and drops their anchors, so two ranges that cover the same cells are equal
however they were written.
-/

namespace Worksheet

/-- A rectangle of cells. -/
structure CellRange where
  /-- The top left corner. -/
  first : Cell
  /-- The bottom right corner. -/
  last : Cell
  deriving DecidableEq, Repr

namespace CellRange

/-- What a range is hashed by. -/
def hashed (range : CellRange) : List Int :=
  range.first.hashed ++ range.last.hashed

/-- **The range spanned by two opposite corners**, whichever they are: the
smaller column and row make up its `first` corner, the larger ones its `last`. -/
def spanning (a b : Cell) : CellRange :=
  let columns :=
    if a.column.index ≤ b.column.index then (a.column, b.column) else (b.column, a.column)
  let rows := if a.row.index ≤ b.row.index then (a.row, b.row) else (b.row, a.row)
  ⟨Cell.toRelative ⟨columns.1, rows.1⟩, Cell.toRelative ⟨columns.2, rows.2⟩⟩

/-- The range of one cell. -/
def single (cell : Cell) : CellRange :=
  spanning cell cell

/-- The range a text names: two cells around a colon, or one cell. -/
def ofText? (text : List Char) : Except ReferenceError CellRange :=
  match text.dropWhile (· != ':') with
  | [] => (Cell.ofText? text).map single
  | _ :: after =>
    match Cell.ofText? (text.takeWhile (· != ':')) with
    | .error e => .error e
    | .ok first => (Cell.ofText? after).map (spanning first)

/-- How many columns the range has. -/
def width (range : CellRange) : Nat :=
  range.last.column.index - range.first.column.index + 1

/-- How many rows the range has. -/
def height (range : CellRange) : Nat :=
  range.last.row.index - range.first.row.index + 1

/-- Whether the range is a single cell. -/
def isSingle (range : CellRange) : Bool :=
  range.first == range.last

/-- Whether a cell lies in the range, its anchors left aside. -/
def contains (range : CellRange) (cell : Cell) : Bool :=
  range.first.column.index ≤ cell.column.index && cell.column.index ≤ range.last.column.index
    && range.first.row.index ≤ cell.row.index && cell.row.index ≤ range.last.row.index

/-- The text of a range; a single cell is written as one. -/
def text (range : CellRange) : List Char :=
  if range.isSingle then range.first.text else range.first.text ++ ':' :: range.last.text

/-- Ranges are ordered by their first corners, then by their last ones, and
those as cells are (`Cell.compare`). -/
def compare (a b : CellRange) : Ordering :=
  (a.first.compare b.first).then (a.last.compare b.last)

end CellRange

end Worksheet
