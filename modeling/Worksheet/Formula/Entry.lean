import Worksheet.Formula.Tree

/-!
# Entries

What is typed into a cell is a formula if it starts with an equals sign, and a
text if it starts with an apostrophe, which is left off. Anything else is a
moment, a date, a time or a number if it can be read as one, in this order, and
the text as it is otherwise.
-/

namespace Worksheet.Formula

/-- The leaf that holds a value read from an entry. -/
def LeafKind.ofValue? : Value → Option LeafKind
  | .dateTime value => some (.dateTime value)
  | .date value => some (.date value)
  | .time value => some (.time value)
  | .number value => some (.number value)
  | _ => none

/-- What an entry is tried as, in order. -/
def entryKinds : List ValueKind :=
  [.dateTime, .date, .time, .number]

/-- What an entry without a leading sign stands for: the first of `entryKinds`
that it can be read as, or the text as it is. -/
def LeafKind.ofEntry (reader : Reader) (text : List Char) : LeafKind :=
  ((entryKinds.findSome? (reader.converter.read? text)).bind ofValue?).getD (.text text)

/-- **The tree of an entry.** A formula is read by `Token.ofFormula?`; anything
else that is not empty is a single leaf, and has one whatever it is. -/
def Token.ofEntry? (reader : Reader) (text : List Char) : Except SyntaxError Token :=
  match text with
  | [] => .error ⟨.emptyEntry, some 0⟩
  | '=' :: _ => ofFormula? reader text
  | '\'' :: rest => leaf? (.text rest) text
  | _ => leaf? (.ofEntry reader text) text

end Worksheet.Formula
