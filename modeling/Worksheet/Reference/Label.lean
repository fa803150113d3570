import Worksheet.Reference.Cell

/-!
# Labels

A label is a name for a cell or a range. It starts with a letter, an underscore
or a backslash, goes on with letters, digits, underscores and points, and must
not read as a cell. Labels are compared without regard to case, but keep the
spelling they were given.
-/

namespace Worksheet

/-- Characters a label may start with. -/
def Label.isStart (c : Char) : Bool :=
  c.isAlpha || c == '_' || c == '\\'

/-- Characters a label may go on with. -/
def Label.isPart (c : Char) : Bool :=
  c.isAlphanum || c == '_' || c == '.'

/-- What is wrong with a text as a label, if anything is. Characters are checked
before the length, and a text of good characters before whether it names a
cell. -/
def Label.fault? (text : List Char) : Option LabelError :=
  match text with
  | [] => some .empty
  | c :: rest =>
    if !isStart c then some (.invalidCharacter c 0 text)
    else
      match rest.dropWhile isPart with
      | bad :: after =>
        some (.invalidCharacter bad (Text.position text (bad :: after)) text)
      | [] =>
        if maxLabelLength < Text.byteLength text then some (.tooLong text)
        else
          match Cell.ofText? text with
          | .ok _ => some (.cellReference text)
          | .error _ => none

/-- A valid label in the spelling it was given. -/
structure Label where
  /-- The spelling. -/
  text : List Char
  /-- Nothing is wrong with the spelling. -/
  valid : Label.fault? text = none
  deriving DecidableEq, Repr

namespace Label

/-- The label a text spells. -/
def ofText? (text : List Char) : Except LabelError Label :=
  match h : fault? text with
  | some e => .error e
  | none => .ok ⟨text, h⟩

/-- **The spelling with every letter a capital**: labels that fold alike are the
same (`Label.beq_iff`), are ordered alike and are hashed alike. -/
def fold (label : Label) : List Char :=
  label.text.map Char.toUpper

instance : BEq Label where
  beq a b := Text.equalIgnoringCase a.text b.text

/-- Labels are the same when they fold alike. -/
theorem beq_iff {a b : Label} : (a == b) = true ↔ a.fold = b.fold :=
  beq_iff_eq (a := a.fold) (b := b.fold)

instance : EquivBEq Label where
  rfl := beq_iff.2 rfl
  symm h := beq_iff.2 (beq_iff.1 h).symm
  trans h h' := beq_iff.2 ((beq_iff.1 h).trans (beq_iff.1 h'))

/-- What a label is hashed by: the characters of its folded spelling. -/
def hashed (label : Label) : List Int :=
  label.fold.map fun c => c.toNat

/-- Labels are ordered by their folded spellings. -/
def compare (a b : Label) : Ordering :=
  Ord.compare a.fold b.fold

end Label

end Worksheet
