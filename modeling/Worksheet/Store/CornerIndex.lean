import Worksheet.Reference.Range

/-!
# Ranges by a corner

Ranges and the values they hold, filed under one of their corners and kept in
the order of the corners. Under one corner ranges stand in the order in which
they came. No corner is kept without ranges, and no range without values.

All changes go through `CornerIndex.update`, which makes one list of values into
another: a range that had no values comes in when it gets some, and goes out
when it has none left.
-/

namespace Worksheet

/-- A range and the values it holds, in the order in which it got them. -/
structure RangeEntry (V : Type) where
  /-- The range. -/
  range : CellRange
  /-- Its values. -/
  values : List V

/-- **Ranges filed under a corner**, and kept in the order of `Cell.compare`.
`RangeStore` has two of them, one for each corner. -/
structure CornerIndex (V : Type) where
  /-- Corners in order, and the ranges under each. -/
  corners : List (Cell × List (RangeEntry V))

namespace CornerIndex

/-- No ranges. -/
def empty : CornerIndex V :=
  ⟨[]⟩

/-- The ranges under a corner. -/
def entriesAt (index : CornerIndex V) (corner : Cell) : List (RangeEntry V) :=
  ((index.corners.find? fun entry => entry.1 == corner).map Prod.snd).getD []

/-- The values of a range under a corner; none when it is not there. -/
def valuesOf (index : CornerIndex V) (corner : Cell) (range : CellRange) : List V :=
  (((index.entriesAt corner).find? fun entry => entry.range == range).map RangeEntry.values).getD []

/-- The entries under a corner with those of one range replaced; without values
it is left out. -/
def setValues (range : CellRange) (values : List V) : List (RangeEntry V) → List (RangeEntry V)
  | [] => if values.isEmpty then [] else [⟨range, values⟩]
  | entry :: entries =>
    if entry.range == range then
      if values.isEmpty then entries else ⟨range, values⟩ :: entries
    else entry :: setValues range values entries

/-- Corners with the entries of one of them replaced; without entries it is left
out. -/
def setEntries (corner : Cell) (entries : List (RangeEntry V)) :
    List (Cell × List (RangeEntry V)) → List (Cell × List (RangeEntry V))
  | [] => if entries.isEmpty then [] else [(corner, entries)]
  | head :: corners =>
    match corner.compare head.1 with
    | .lt => if entries.isEmpty then head :: corners else (corner, entries) :: head :: corners
    | .eq => if entries.isEmpty then corners else (corner, entries) :: corners
    | .gt => head :: setEntries corner entries corners

/-- **The index with other values for a range under a corner.** All else is left
as it is, whatever the change. -/
def update (index : CornerIndex V) (corner : Cell) (range : CellRange) (values : List V) :
    CornerIndex V :=
  ⟨setEntries corner (setValues range values (index.entriesAt corner)) index.corners⟩

/-- All entries in order. -/
def entries (index : CornerIndex V) : List (RangeEntry V) :=
  index.corners.flatMap Prod.snd

end CornerIndex

end Worksheet
