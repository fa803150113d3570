import Worksheet.Text.Basic
import Worksheet.Text.Blank

/-!
# Error values

What a cell shows instead of a result: one of nine codes, perhaps with an
explanation. An error value is a value like any other; it is not a failure of
the library.
-/

namespace Worksheet

/-- The codes of error values. -/
inductive CellErrorKind where
  | null
  | division
  | value
  | reference
  | name
  | number
  | notAvailable
  | spill
  | calculation
  deriving DecidableEq, Repr

namespace CellErrorKind

/-- Every code, in order. -/
def all : List CellErrorKind :=
  [null, division, value, reference, name, number, notAvailable, spill, calculation]

/-- The code as a cell shows it. -/
def text : CellErrorKind → List Char
  | null => "#NULL!".toList
  | division => "#DIV/0!".toList
  | value => "#VALUE!".toList
  | reference => "#REF!".toList
  | name => "#NAME?".toList
  | number => "#NUM!".toList
  | notAvailable => "#N/A".toList
  | spill => "#SPILL!".toList
  | calculation => "#CALC!".toList

/-- The code a text spells in either case, blanks around it left aside. -/
def ofText? (text : List Char) : Option CellErrorKind :=
  all.find? fun kind => Text.equalIgnoringCase kind.text (Text.trim text)

/-- The code at the start of a text in either case, and what follows it. No code
starts another. -/
def scan? (text : List Char) : Option (CellErrorKind × List Char) :=
  all.findSome? fun kind => (Text.dropIgnoringCase? kind.text text).map (kind, ·)

/-- A code takes at least one character. -/
theorem length_scan? {text rest : List Char} {kind : CellErrorKind}
    (h : scan? text = some (kind, rest)) : rest.length < text.length := by
  obtain ⟨found, -, hfound⟩ := List.exists_of_findSome?_eq_some h
  obtain ⟨tail, htail, heq⟩ := Option.map_eq_some_iff.1 hfound
  obtain ⟨rfl, rfl⟩ := Prod.mk.inj heq
  have hlen := Text.length_dropIgnoringCase? htail
  have hpos : 0 < found.text.length := by cases found <;> decide
  omega

end CellErrorKind

/-- An error value. -/
structure CellError where
  /-- The code. -/
  kind : CellErrorKind
  /-- An explanation for a reader. -/
  explanation : Option (List Char)
  deriving DecidableEq, Repr

namespace CellError

/-- What an error value is hashed by: the place of its code, and its explanation
if it has one. -/
def hashed (error : CellError) : List Int :=
  CellErrorKind.all.idxOf error.kind ::
    match error.explanation with
    | none => [0]
    | some explanation => 1 :: explanation.map fun c => c.toNat

/-- The error value of a code alone. -/
def ofKind (kind : CellErrorKind) : CellError :=
  ⟨kind, none⟩

/-- The error value of a code with an explanation. -/
def because (kind : CellErrorKind) (explanation : String) : CellError :=
  ⟨kind, some explanation.toList⟩

/-- The code, and the explanation after a colon. -/
def text (error : CellError) : List Char :=
  error.kind.text ++
    match error.explanation with
    | some explanation => ':' :: ' ' :: explanation
    | none => []

end CellError

end Worksheet
