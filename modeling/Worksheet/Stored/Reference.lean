import Worksheet.Reference.Selection
import Worksheet.Stored.Datum

/-!
# Stored references

Columns and rows are stored with their number from zero and the name of their
anchor, cells and ranges with their parts, and labels as texts. Labels are
checked when they are read back; the others are taken as they are.
-/

namespace Worksheet

namespace Anchor

/-- Every anchor. -/
def all : List Anchor :=
  [relative, absolute]

/-- The name an anchor is stored by. -/
def storedName : Anchor → String
  | relative => "Relative"
  | absolute => "Absolute"

end Anchor

/-- A stored coordinate. -/
def Datum.ofCoordinate (index : Nat) (anchor : Anchor) : Datum :=
  .record [("value", .ofNat index), ("kind", .name anchor.storedName)]

/-- A coordinate read back. -/
def Datum.coordinate? (datum : Datum) : Option (Nat × Anchor) :=
  match datum.fields? ["value", "kind"] with
  | some [index, anchor] => do
    return (← index.nat? 32, ← anchor.choice? Anchor.all Anchor.storedName)
  | _ => none

/-- A column, stored. -/
def Column.toDatum (column : Column) : Datum :=
  .ofCoordinate column.index column.anchor

/-- A stored column. -/
def Column.ofDatum? (datum : Datum) : Option Column :=
  datum.coordinate?.map fun (index, anchor) => ⟨index, anchor⟩

/-- A row, stored. -/
def Row.toDatum (row : Row) : Datum :=
  .ofCoordinate row.index row.anchor

/-- A stored row. -/
def Row.ofDatum? (datum : Datum) : Option Row :=
  datum.coordinate?.map fun (index, anchor) => ⟨index, anchor⟩

/-- A cell, stored. -/
def Cell.toDatum (cell : Cell) : Datum :=
  .record [("column", cell.column.toDatum), ("row", cell.row.toDatum)]

/-- A stored cell. -/
def Cell.ofDatum? (datum : Datum) : Option Cell :=
  match datum.fields? ["column", "row"] with
  | some [column, row] => do return ⟨← Column.ofDatum? column, ← Row.ofDatum? row⟩
  | _ => none

/-- A range, stored. -/
def CellRange.toDatum (range : CellRange) : Datum :=
  .record [("begin", range.first.toDatum), ("end", range.last.toDatum)]

/-- A stored range. -/
def CellRange.ofDatum? (datum : Datum) : Option CellRange :=
  match datum.fields? ["begin", "end"] with
  | some [first, last] => do return ⟨← Cell.ofDatum? first, ← Cell.ofDatum? last⟩
  | _ => none

/-- A label, stored. -/
def Label.toDatum (label : Label) : Datum :=
  .text label.text

/-- A stored label, if it is one. -/
def Label.ofDatum? (datum : Datum) : Option Label :=
  datum.text?.bind fun text => (Label.ofText? text).toOption

namespace Selection

/-- A selection, stored. -/
def toDatum : Selection → Datum
  | .cell target => .tagged "Cell" target.toDatum
  | .range target => .tagged "Range" target.toDatum
  | .column target => .tagged "Column" target.toDatum
  | .row target => .tagged "Row" target.toDatum
  | .label target => .tagged "Label" target.toDatum

/-- A stored selection. -/
def ofDatum? (datum : Datum) : Option Selection :=
  match datum.case? with
  | some ("Cell", target) => (Cell.ofDatum? target).map .cell
  | some ("Range", target) => (CellRange.ofDatum? target).map .range
  | some ("Column", target) => (Column.ofDatum? target).map .column
  | some ("Row", target) => (Row.ofDatum? target).map .row
  | some ("Label", target) => (Label.ofDatum? target).map .label
  | _ => none

end Selection

end Worksheet
