import Worksheet.Proofs.Reference.Spelling
import Worksheet.Reference.Range

/-!
# Cells are read back

The text of a cell of the sheet names that cell, whatever its anchors are and
whatever follows, as long as it does not go on with a digit
(`Cell.scan_text_append_of_stops`): it spells the cell
(`Cell.InSheet.spelling_spec`).

More text after a reference is no part of the reading: scanning a text and
scanning it with more behind it have the same outcome (`Cell.scan_append`), as
long as what follows is no letter, no digit and no anchor.
-/

namespace Worksheet

/-! ## More text

A reference stops at the first character that is no part of it. What was
scanned without more text is scanned with it, provided the text does not go on
with such a part. -/

/-- Characters that a reference may go on with: letters, digits and the sign of
an anchor. -/
def Cell.isPart (c : Char) : Bool :=
  c.isAlphanum || c == '$'

theorem Cell.stops_isPart {rest : List Char} (h : Text.Stops Cell.isPart rest) :
    Text.Stops Char.isAlpha rest ∧ Text.Stops Char.isDigit rest ∧ rest.head? ≠ some '$' := by
  cases rest with
  | nil => exact ⟨rfl, rfl, by simp⟩
  | cons c rest =>
    have hc := Text.stops_cons.1 h
    simp only [isPart, Char.isAlphanum, Bool.or_eq_false_iff, beq_eq_false_iff_ne] at hc
    refine ⟨Text.stops_cons.2 hc.1.1, Text.stops_cons.2 hc.1.2, fun heq => hc.2 ?_⟩
    exact Option.some.inj heq

/-- What is left after a reading, with more text behind it. -/
def withRest {α ε : Type} (rest : List Char) (scanned : Except ε (Option (α × List Char))) :
    Except ε (Option (α × List Char)) :=
  scanned.map (Option.map fun found => (found.1, found.2 ++ rest))

namespace Anchor

theorem scan_append (text : List Char) {rest : List Char} (h : rest.head? ≠ some '$') :
    scan (text ++ rest) = ((scan text).1, (scan text).2 ++ rest) := by
  cases text with
  | nil =>
    rw [List.nil_append]
    unfold scan
    split
    · exact absurd rfl h
    · rfl
  | cons c text =>
    unfold scan
    split
    · rename_i heq
      obtain ⟨rfl, rfl⟩ := List.cons.inj heq
      rfl
    · rename_i hne
      split
      · rename_i heq
        obtain ⟨rfl, rfl⟩ := List.cons.inj heq
        exact absurd rfl (hne (text ++ rest))
      · rfl

end Anchor

namespace Column

theorem scan_append (text : List Char) {rest : List Char}
    (hdollar : rest.head? ≠ some '$') (halpha : Text.Stops Char.isAlpha rest) :
    scan (text ++ rest) = withRest rest (scan text) := by
  unfold scan
  rw [Anchor.scan_append text hdollar]
  simp only [Text.takeRun_append_of_stops _ halpha]
  split
  · rfl
  · split
    · rfl
    · cases ofIndex? _ (Anchor.scan text).1 <;> rfl

end Column

namespace Row

theorem scan_append (text : List Char) {rest : List Char}
    (hdollar : rest.head? ≠ some '$') (hdigit : Text.Stops Char.isDigit rest) :
    scan (text ++ rest) = withRest rest (scan text) := by
  unfold scan
  rw [Anchor.scan_append text hdollar]
  simp only [Text.takeRun_append_of_stops _ hdigit]
  split
  · rfl
  · split
    · rfl
    · split <;> rfl

end Row

namespace Cell

/-- **What follows a reference is no part of it**: with more text behind it the
same is found, and all of that text is left (`withRest`). -/
theorem scan_append (text : List Char) {rest : List Char} (h : Text.Stops isPart rest) :
    scan (text ++ rest) = withRest rest (scan text) := by
  obtain ⟨halpha, hdigit, hdollar⟩ := stops_isPart h
  unfold scan
  rw [Column.scan_append text hdollar halpha]
  cases hcolumn : Column.scan text with
  | error e => rfl
  | ok found =>
    cases found with
    | none => rfl
    | some found =>
      obtain ⟨column, after⟩ := found
      simp only [withRest, Except.map, Option.map_some]
      rw [Row.scan_append after hdollar hdigit]
      cases Row.scan after with
      | error e => rfl
      | ok found => cases found <;> rfl

/-- A cell starts with an anchor or a letter. -/
theorem text_eq_cons (cell : Cell) : ∃ first tail, cell.text = first :: tail ∧
    (first = '$' ∨ first.isAlpha = true) := by
  obtain ⟨⟨index, anchor⟩, row⟩ := cell
  cases anchor with
  | absolute => exact ⟨'$', _, rfl, Or.inl rfl⟩
  | relative =>
    cases hletters : Column.letters index with
    | nil => exact absurd hletters (Column.letters_ne_nil index)
    | cons first tail =>
      refine ⟨first, tail ++ row.text, ?_, Or.inr ?_⟩
      · show [] ++ Column.letters index ++ row.text = _
        rw [hletters]
        rfl
      · exact Column.isAlpha_of_mem_letters (hletters ▸ List.mem_cons_self)

/-- **The spelling of a cell of the sheet**, with what makes it a `Spelling`
proved of its letters and digits. -/
def InSheet.spelling {cell : Cell} (h : cell.InSheet) : Spelling where
  column :=
    { anchor := cell.column.anchor
      name := Column.letters cell.column.index
      isAlpha := fun _ => Column.isAlpha_of_mem_letters
      name_ne_nil := Column.letters_ne_nil cell.column.index
      length_le := Column.length_letters_le h.column }
  row :=
    { anchor := cell.row.anchor
      digits := Text.ofNat (cell.row.index + 1)
      isDigit := fun _ => Text.isDigit_of_mem_ofNat
      digits_ne_nil := Text.ofNat_ne_nil _
      head?_ne_zero := Text.head?_ofNat_ne_zero (Nat.succ_pos _) }

/-- The text of a cell of the sheet spells the cell. -/
theorem InSheet.spelling_spec {cell : Cell} (h : cell.InSheet) :
    h.spelling.text = cell.text ∧ h.spelling.InSheet ∧ h.spelling.cell = cell := by
  have hcolumn : h.spelling.column.number = cell.column.index + 1 :=
    Column.lettersValue_letters cell.column.index
  have hrow : h.spelling.row.number = cell.row.index + 1 :=
    Text.digitsValue_ofNat (cell.row.index + 1)
  refine ⟨rfl, ⟨?_, ?_⟩, ?_⟩
  · rw [hcolumn]
    exact h.column
  · rw [hrow]
    exact h.row
  · rw [Spelling.cell, Column.Spelling.column, Row.Spelling.row, hcolumn, hrow]
    rfl

/-- **A cell of the sheet is read back**, with whatever anchors it is written,
before anything but a further digit. -/
theorem scan_text_append_of_stops {cell : Cell} (h : cell.InSheet) {rest : List Char}
    (hrest : Text.Stops Char.isDigit rest) :
    scan (cell.text ++ rest) = .ok (some (cell, rest)) := by
  obtain ⟨htext, hin, hcell⟩ := h.spelling_spec
  rw [← htext, Spelling.scan_append hin hrest, hcell]

/-- **A cell of the sheet is read back.** -/
theorem scan_text {cell : Cell} (h : cell.InSheet) :
    scan cell.text = .ok (some (cell, [])) := by
  have hscan := scan_text_append_of_stops h (show Text.Stops Char.isDigit [] from rfl)
  rwa [List.append_nil] at hscan

/-- **A cell of the sheet is read back before more text** that no reference goes
on with. -/
theorem scan_text_append {cell : Cell} (h : cell.InSheet) {rest : List Char}
    (hrest : Text.Stops isPart rest) :
    scan (cell.text ++ rest) = .ok (some (cell, rest)) :=
  scan_text_append_of_stops h (stops_isPart hrest).2.1

end Cell

/-! ## Ranges

The corners are put in order, column by column and row by row, so they may be
corners that were in neither cell. Being in the sheet is kept, as each
coordinate comes from one of the two. -/

namespace CellRange

theorem le_spanning (a b : Cell) :
    (spanning a b).first.column.index ≤ (spanning a b).last.column.index ∧
      (spanning a b).first.row.index ≤ (spanning a b).last.row.index := by
  unfold spanning
  split <;> split <;> simp only [Cell.toRelative] <;> omega

/-- Corners in order are kept, without their anchors. -/
theorem spanning_of_le {a b : Cell} (hcolumn : a.column.index ≤ b.column.index)
    (hrow : a.row.index ≤ b.row.index) : spanning a b = ⟨a.toRelative, b.toRelative⟩ := by
  unfold spanning
  rw [if_pos hcolumn, if_pos hrow]

theorem spanning_corners (a b : Cell) :
    spanning (spanning a b).first (spanning a b).last = spanning a b := by
  obtain ⟨hcolumn, hrow⟩ := le_spanning a b
  rw [spanning_of_le hcolumn hrow]
  rfl

theorem inSheet_spanning {a b : Cell} (ha : a.InSheet) (hb : b.InSheet) :
    (spanning a b).first.InSheet ∧ (spanning a b).last.InSheet := by
  obtain ⟨hcolumn, hrow⟩ := ha
  obtain ⟨hcolumn', hrow'⟩ := hb
  unfold spanning
  split <;> split <;> exact ⟨⟨by assumption, by assumption⟩, ⟨by assumption, by assumption⟩⟩

end CellRange

end Worksheet
