import Worksheet.Text.Basic

/-!
# Column letters

Columns are numbered from zero and named `A` to `Z`, `AA` to `ZZ`, `AAA` and on:
numbers in base 26 whose digits run from 1 to 26, less one. The names of the
columns below `2 ^ 32` are read back; a longer name has no column.
-/

namespace Worksheet.Column

/-- How many columns have a number. -/
def indexLimit : Nat := 2 ^ 32

/-- The letter of a digit below 26. -/
def letter (digit : Nat) : Char :=
  Char.ofNat ('A'.toNat + digit)

/-- The digit of a letter in either case: `A` is 0. -/
def letterRank (c : Char) : Nat :=
  c.toUpper.toNat - 'A'.toNat

/-- **The letters of a column.** `ofLetters?` reads them back. -/
def letters (index : Nat) : List Char :=
  if index < 26 then [letter index]
  else letters (index / 26 - 1) ++ [letter (index % 26)]
termination_by index
decreasing_by omega

/-- A column number, when it is one. -/
def bounded? (index : Nat) : Option Nat :=
  if index < indexLimit then some index else none

/-- The column reached from one column number by further letters. Each letter
but the last counts one more than its digit, and no number on the way may leave
the limit. -/
def extend? (index : Nat) : List Char → Option Nat
  | [] => some index
  | c :: rest =>
    if c.isAlpha then do
      let shifted ← bounded? (index * 26)
      let added ← bounded? (shifted + letterRank c)
      let next ← if rest.isEmpty then some added else bounded? (added + 1)
      extend? next rest
    else none

/-- **The column of a run of letters** in either case, letter by letter through
`extend?`, which fails as soon as a number on the way leaves the limit. -/
def ofLetters? (name : List Char) : Option Nat :=
  if name.isEmpty then none else extend? 0 name

end Worksheet.Column
