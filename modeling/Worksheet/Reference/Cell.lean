import Worksheet.Reference.Error
import Worksheet.Reference.Letters
import Worksheet.Text.Basic

/-!
# Columns, rows and cells

A cell is named by its column letters and its row number, each of which may be
anchored by a dollar sign. Inside, columns and rows count from zero; the order
of cells is by row, then by column, then by anchors.

Reading has three outcomes. A text that does not have the shape of a reference
is not one (`Except.ok none`); one that has it and lies outside the sheet is an
error; anything else is a reference, with the characters after it.
-/

namespace Worksheet

/-- Whether a coordinate moves when a formula is copied. -/
inductive Anchor where
  /-- The coordinate moves. -/
  | relative
  /-- The coordinate stays; it is written with a dollar sign. -/
  | absolute
  deriving DecidableEq, Repr

namespace Anchor

/-- Relative coordinates come before absolute ones. -/
def rank : Anchor → Nat
  | .relative => 0
  | .absolute => 1

/-- The sign written before an anchored coordinate. -/
def sign : Anchor → List Char
  | .relative => []
  | .absolute => ['$']

/-- The anchor at the start of a text, and what follows it. -/
def scan : List Char → Anchor × List Char
  | '$' :: rest => (.absolute, rest)
  | text => (.relative, text)

end Anchor

/-- A column of a sheet. -/
structure Column where
  /-- The number of the column, from zero. -/
  index : Nat
  /-- Whether the column is anchored. -/
  anchor : Anchor
  deriving DecidableEq, Repr

/-- A row of a sheet. -/
structure Row where
  /-- The number of the row, from zero; it is written one higher. -/
  index : Nat
  /-- Whether the row is anchored. -/
  anchor : Anchor
  deriving DecidableEq, Repr

/-- A single cell. -/
structure Cell where
  /-- The column of the cell. -/
  column : Column
  /-- The row of the cell. -/
  row : Row
  deriving DecidableEq, Repr

/-- What a column is hashed by: its number and the rank of its anchor. -/
def Column.hashed (column : Column) : List Int :=
  [column.index, column.anchor.rank]

/-- What a row is hashed by: its number and the rank of its anchor. -/
def Row.hashed (row : Row) : List Int :=
  [row.index, row.anchor.rank]

/-- What a cell is hashed by. -/
def Cell.hashed (cell : Cell) : List Int :=
  cell.column.hashed ++ cell.row.hashed

/-- The first thing that is wrong in a text that should have ended or begun
otherwise. -/
def ReferenceError.unexpected (text rest : List Char) : ReferenceError :=
  .invalidCharacter (rest.head?.getD (Char.ofNat 0)) (Text.position text rest) text

/-- A reading of a whole text: nothing may be left, and something must be there.
The three outcomes of a `scan` become two. -/
def ReferenceError.complete (text : List Char)
    (scanned : Except ReferenceError (Option (α × List Char))) : Except ReferenceError α :=
  match scanned with
  | .error e => .error e
  | .ok (some (value, [])) => .ok value
  | .ok (some (_, rest)) => .error (.unexpected text rest)
  | .ok none => .error (if text.isEmpty then .empty else .unexpected text text)

namespace Column

/-- The column with a number, when the sheet has it. -/
def ofIndex? (index : Nat) (anchor : Anchor) : Except ReferenceError Column :=
  if index < maxColumns then .ok ⟨index, anchor⟩ else .error (.columnOutOfRange index)

/-- The column at the start of a text: up to three letters, perhaps anchored.
More letters make a name. -/
def scan (text : List Char) : Except ReferenceError (Option (Column × List Char)) :=
  let (anchor, named) := Anchor.scan text
  let (name, rest) := Text.takeRun Char.isAlpha named
  if name.isEmpty || 3 < name.length then .ok none
  else
    match ofLetters? name with
    | none => .error (.columnOutOfRange (2 ^ 64 - 1))
    | some index => (ofIndex? index anchor).map fun column => some (column, rest)

/-- A column takes at least one character. -/
theorem length_scan {text rest : List Char} {column : Column}
    (h : scan text = .ok (some (column, rest))) : rest.length < text.length := by
  unfold scan at h
  have hanchor : (Anchor.scan text).2.length ≤ text.length := by
    unfold Anchor.scan; split <;> simp
  have hrun := congrArg List.length (Text.takeRun_append Char.isAlpha (Anchor.scan text).2)
  simp only [List.length_append] at hrun
  simp only at h
  split at h
  · simp at h
  · rename_i hname
    split at h
    · simp at h
    · rename_i index hindex
      cases hof : ofIndex? index (Anchor.scan text).1 with
      | error e => simp [hof, Except.map] at h
      | ok found =>
        simp only [hof, Except.map, Except.ok.injEq, Option.some.injEq, Prod.mk.injEq] at h
        have hpos : 0 < (Text.takeRun Char.isAlpha (Anchor.scan text).2).1.length := by
          simp only [Bool.or_eq_true, List.isEmpty_iff, not_or] at hname
          exact List.length_pos_iff.2 hname.1
        rw [← h.2]; omega

/-- The column a text names. -/
def ofText? (text : List Char) : Except ReferenceError Column :=
  ReferenceError.complete text (scan text)

/-- The text of a column. -/
def text (column : Column) : List Char :=
  column.anchor.sign ++ letters column.index

/-- Columns are ordered by number, then by anchor. -/
def compare (a b : Column) : Ordering :=
  (Ord.compare a.index b.index).then (Ord.compare a.anchor.rank b.anchor.rank)

end Column

namespace Row

/-- The row with a number, when the sheet has it. -/
def ofIndex? (index : Nat) (anchor : Anchor) : Except ReferenceError Row :=
  if index < maxRows then .ok ⟨index, anchor⟩ else .error (.rowOutOfRange index)

/-- The row at the start of a text: a number without a leading zero, perhaps
anchored. -/
def scan (text : List Char) : Except ReferenceError (Option (Row × List Char)) :=
  let (anchor, numbered) := Anchor.scan text
  let (digits, rest) := Text.takeRun Char.isDigit numbered
  if digits.isEmpty || digits.head? == some '0' then .ok none
  else
    let number := Text.digitsValue digits
    if 2 ^ 64 ≤ number then .error (.rowOutOfRange (2 ^ 64 - 1))
    else if maxRows < number then .error (.rowOutOfRange number)
    else .ok (some (⟨number - 1, anchor⟩, rest))

/-- A row takes at least one character. -/
theorem length_scan {text rest : List Char} {row : Row}
    (h : scan text = .ok (some (row, rest))) : rest.length < text.length := by
  unfold scan at h
  have hanchor : (Anchor.scan text).2.length ≤ text.length := by
    unfold Anchor.scan; split <;> simp
  have hrun := congrArg List.length (Text.takeRun_append Char.isDigit (Anchor.scan text).2)
  simp only [List.length_append] at hrun
  simp only at h
  split at h
  · simp at h
  · rename_i hdigits
    split at h
    · simp at h
    · split at h
      · simp at h
      · simp only [Except.ok.injEq, Option.some.injEq, Prod.mk.injEq] at h
        have hpos : 0 < (Text.takeRun Char.isDigit (Anchor.scan text).2).1.length := by
          simp only [Bool.or_eq_true, List.isEmpty_iff, not_or] at hdigits
          exact List.length_pos_iff.2 hdigits.1
        rw [← h.2]; omega

/-- The row a text names. -/
def ofText? (text : List Char) : Except ReferenceError Row :=
  ReferenceError.complete text (scan text)

/-- The text of a row. -/
def text (row : Row) : List Char :=
  row.anchor.sign ++ Text.ofNat (row.index + 1)

/-- Rows are ordered by number, then by anchor. -/
def compare (a b : Row) : Ordering :=
  (Ord.compare a.index b.index).then (Ord.compare a.anchor.rank b.anchor.rank)

end Row

namespace Cell

/-- The relative cell with a column number and a row number. -/
def ofCoordinates? (column row : Nat) : Except ReferenceError Cell :=
  match Column.ofIndex? column .relative with
  | .error e => .error e
  | .ok column =>
    match Row.ofIndex? row .relative with
    | .error e => .error e
    | .ok row => .ok ⟨column, row⟩

/-- The same cell without anchors. Ranges are made of such cells
(`CellRange.spanning`), and cells are looked up as such. -/
def toRelative (cell : Cell) : Cell :=
  ⟨{ cell.column with anchor := .relative }, { cell.row with anchor := .relative }⟩

/-- The cell at the start of a text. The column is checked before the row is
looked at. -/
def scan (text : List Char) : Except ReferenceError (Option (Cell × List Char)) :=
  match Column.scan text with
  | .error e => .error e
  | .ok none => .ok none
  | .ok (some (column, rest)) =>
    match Row.scan rest with
    | .error e => .error e
    | .ok none => .ok none
    | .ok (some (row, rest)) => .ok (some (⟨column, row⟩, rest))

/-- A cell takes at least one character. -/
theorem length_scan {text rest : List Char} {cell : Cell}
    (h : scan text = .ok (some (cell, rest))) : rest.length < text.length := by
  unfold scan at h
  split at h
  · simp at h
  · simp at h
  · rename_i column after hcolumn
    split at h
    · simp at h
    · simp at h
    · rename_i row final hrow
      simp only [Except.ok.injEq, Option.some.injEq, Prod.mk.injEq] at h
      have := Column.length_scan hcolumn
      have := Row.length_scan hrow
      rw [← h.2]; omega

/-- The cell a text names. -/
def ofText? (text : List Char) : Except ReferenceError Cell :=
  ReferenceError.complete text (scan text)

/-- The text of a cell. -/
def text (cell : Cell) : List Char :=
  cell.column.text ++ cell.row.text

/-- Cells are ordered by row, then by column, then by the anchors of both. -/
def compare (a b : Cell) : Ordering :=
  (Ord.compare a.row.index b.row.index).then <|
    (Ord.compare a.column.index b.column.index).then <|
      (Ord.compare a.row.anchor.rank b.row.anchor.rank).then
        (Ord.compare a.column.anchor.rank b.column.anchor.rank)

end Cell

end Worksheet
