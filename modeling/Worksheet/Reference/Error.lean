import Worksheet.Text.Quoted

/-!
# What can be wrong with a reference or a label

One constructor per cause, and the wording of each in `message`.
-/

namespace Worksheet

/-- Columns of a sheet, `A` to `XFD`. -/
def maxColumns : Nat := 16384

/-- Rows of a sheet. -/
def maxRows : Nat := 1048576

/-- Why a text or a pair of coordinates is not a reference. -/
inductive ReferenceError where
  /-- There is no text. -/
  | empty
  /-- A character that cannot stand at its byte position; NUL stands for the end
  of the text. -/
  | invalidCharacter (char : Char) (position : Nat) (text : List Char)
  /-- A column at or past the limit, counted from zero. -/
  | columnOutOfRange (index : Nat)
  /-- A row past the limit, as it was given. -/
  | rowOutOfRange (row : Nat)
  deriving DecidableEq, Repr

/-- The wording of a reference error. -/
def ReferenceError.message : ReferenceError → String
  | .empty => "empty reference"
  | .invalidCharacter char position text =>
    s!"invalid character {quoteChar char} at {position} in {quote text}"
  | .columnOutOfRange index => s!"column {index} out of range (max {maxColumns})"
  | .rowOutOfRange row => s!"row {row} out of range (max {maxRows})"

/-- Why a text is not a label. -/
inductive LabelError where
  /-- There is no text. -/
  | empty
  /-- The text has too many bytes. -/
  | tooLong (text : List Char)
  /-- A character that no label has at its byte position. -/
  | invalidCharacter (char : Char) (position : Nat) (text : List Char)
  /-- The text names a cell. -/
  | cellReference (text : List Char)
  deriving DecidableEq, Repr

/-- The longest label, in bytes. -/
def maxLabelLength : Nat := 255

/-- The wording of a label error. -/
def LabelError.message : LabelError → String
  | .empty => "empty label"
  | .tooLong text => s!"label {quote text} longer than {maxLabelLength} characters"
  | .invalidCharacter char position text =>
    s!"invalid character {quoteChar char} at {position} in label {quote text}"
  | .cellReference text => s!"label {quote text} is a cell reference"

end Worksheet
