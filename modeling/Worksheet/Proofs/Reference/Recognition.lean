import Mathlib.Data.Set.Function
import Worksheet.Proofs.Answers
import Worksheet.Proofs.Reference.Selections

/-!
# Which texts are cells

The texts that name a cell are the spellings of the cells of the sheet
(`Cell.ofText?_eq_ok_iff`). A cell is written as its spelling is, with capitals
(`Cell.Spelling.text_cell`), so that cells and their texts in capitals are in
bijection (`Cell.texts_and_cells`).

At a place inside a text the answer depends on what begins there. The column is
looked at before the row: letters past those of the last column are an error
whether or not there is a row behind them, as in the name of a function, and
only then is a text without the shape of a reference told apart
(`Cell.scan_outcomes`).
-/

namespace Worksheet

/-- A whole text is read when nothing is left of it. -/
theorem ReferenceError.complete_eq_ok_iff {α : Type} {text : List Char} {value : α}
    {scanned : Except ReferenceError (Option (α × List Char))} :
    complete text scanned = .ok value ↔ scanned = .ok (some (value, [])) := by
  unfold complete
  split
  · exact ⟨nofun, nofun⟩
  · rw [Except.ok.injEq, Except.ok.injEq, Option.some.injEq, Prod.mk.injEq, and_iff_left rfl]
  · rename_i hleft
    refine ⟨nofun, fun h => ?_⟩
    obtain ⟨-, rfl⟩ := Prod.mk.inj (Option.some.inj (Except.ok.inj h))
    exact (hleft rfl).elim
  · exact ⟨nofun, nofun⟩

theorem Text.toUpper_of_isDigit {c : Char} (h : c.isDigit = true) : c.toUpper = c := by
  have hcode : 48 ≤ c.toNat ∧ c.toNat ≤ 57 := Char.isDigit_iff_toNat.1 h
  unfold Char.toUpper
  refine dif_neg fun hlower => ?_
  have hsmall : 97 ≤ c.toNat := hlower.1
  omega

namespace Cell

/-- **The texts of cells** are the spellings of the cells of the sheet. -/
theorem ofText?_eq_ok_iff {text : List Char} {cell : Cell} :
    ofText? text = .ok cell ↔ ∃ s : Spelling, s.text = text ∧ s.InSheet ∧ s.cell = cell := by
  rw [ofText?, ReferenceError.complete_eq_ok_iff, scan_eq_some_iff]
  refine exists_congr fun s => ?_
  rw [List.append_nil]
  exact ⟨fun h => ⟨h.1.symm, h.2.2⟩, fun h => ⟨h.1.symm, rfl, h.2⟩⟩

/-- **A spelled cell is written in capitals**: letters and digits are those of
their values. -/
theorem Spelling.text_cell (s : Spelling) : s.cell.text = s.text.map Char.toUpper := by
  have hname : Column.letters (s.column.number - 1) = s.column.name.map Char.toUpper :=
    Column.letters_of_lettersValue s.column.isAlpha s.column.name_ne_nil
  obtain ⟨hpos, hdigits⟩ := s.row.number_spec
  have hupper : s.row.digits.map Char.toUpper = s.row.digits :=
    (List.map_congr_left fun c hc => Text.toUpper_of_isDigit (s.row.isDigit c hc)).trans
      (List.map_id _)
  have hcolumn : s.column.column.text = s.column.text.map Char.toUpper := by
    rw [Column.text, Column.Spelling.text, List.map_append, Anchor.map_toUpper_sign, ← hname]
    rfl
  have hrow : s.row.row.text = s.row.text.map Char.toUpper := by
    have hnumber : s.row.row.index + 1 = s.row.number := Nat.sub_add_cancel hpos
    rw [Row.text, Row.Spelling.text, List.map_append, Anchor.map_toUpper_sign, hupper, hnumber,
      hdigits]
    rfl
  rw [Cell.text, Spelling.text, List.map_append, ← hcolumn, ← hrow]
  rfl

/-- **Cells and their texts.** A text names a cell just when it spells one of
the sheet: it has an anchor or none, one to three letters of a column up to the
last one, an anchor or none, and the digits of a row up to the last one, without
a leading zero. The cell is written as the text with its letters as capitals.
Every cell of the sheet, however it is anchored, is what its text names; so
cells and the texts in capitals that name them are in bijection. -/
theorem texts_and_cells :
    (∀ text, (∃ cell, ofText? text = .ok cell) ↔ ∃ s : Spelling, s.text = text ∧ s.InSheet)
      ∧ (∀ text cell, ofText? text = .ok cell → cell.text = text.map Char.toUpper)
      ∧ (∀ cell, InSheet cell → ofText? cell.text = .ok cell)
      ∧ Set.BijOn Cell.text {cell | cell.InSheet}
          {text | (∃ s : Spelling, s.text = text ∧ s.InSheet) ∧ text.map Char.toUpper = text} := by
  have hspelled : ∀ text, (∃ cell, ofText? text = .ok cell) ↔
      ∃ s : Spelling, s.text = text ∧ s.InSheet := fun text =>
    ⟨fun ⟨cell, h⟩ =>
        let ⟨s, htext, hin, _⟩ := ofText?_eq_ok_iff.1 h
        ⟨s, htext, hin⟩,
      fun ⟨s, htext, hin⟩ => ⟨s.cell, ofText?_eq_ok_iff.2 ⟨s, htext, hin, rfl⟩⟩⟩
  have hwritten : ∀ text cell, ofText? text = .ok cell → cell.text = text.map Char.toUpper := by
    intro text cell h
    obtain ⟨s, rfl, -, rfl⟩ := ofText?_eq_ok_iff.1 h
    exact s.text_cell
  have hread : ∀ cell, InSheet cell → ofText? cell.text = .ok cell := fun _ => ofText?_text
  refine ⟨hspelled, hwritten, hread, ?_, ?_, ?_⟩
  · intro cell hcell
    exact ⟨(hspelled _).1 ⟨cell, hread cell hcell⟩, (hwritten _ _ (hread cell hcell)).symm⟩
  · intro cell hcell other hother (htext : cell.text = other.text)
    have hsame := (hread cell hcell).symm.trans (htext ▸ hread other hother)
    exact Except.ok.inj hsame
  · rintro text ⟨hspelling, hcapitals⟩
    obtain ⟨cell, hcell⟩ := (hspelled text).2 hspelling
    obtain ⟨s, -, hin, rfl⟩ := ofText?_eq_ok_iff.1 hcell
    exact ⟨s.cell, hin.cell, (hwritten _ _ hcell).trans hcapitals⟩

/-- A corner of the sheet in small letters, `$xfd$1048576`. -/
theorem texts_and_cells_lastCell :
    ofText? "$xfd$1048576".toList = .ok ⟨⟨16383, .absolute⟩, ⟨1048575, .absolute⟩⟩
      ∧ Cell.text ⟨⟨16383, .absolute⟩, ⟨1048575, .absolute⟩⟩ = "$XFD$1048576".toList
      ∧ InSheet ⟨⟨16383, .absolute⟩, ⟨1048575, .absolute⟩⟩
      ∧ ofText? "$XFD$1048576".toList = .ok ⟨⟨16383, .absolute⟩, ⟨1048575, .absolute⟩⟩ := by
  obtain ⟨hspelled, hwritten, hread, -⟩ := texts_and_cells
  have hcell : ofText? "$xfd$1048576".toList
      = .ok ⟨⟨16383, .absolute⟩, ⟨1048575, .absolute⟩⟩ := by decide +kernel
  have hin : InSheet ⟨⟨16383, .absolute⟩, ⟨1048575, .absolute⟩⟩ := ⟨by decide, by decide⟩
  have htext := hwritten _ _ hcell
  have hcapitals : "$xfd$1048576".toList.map Char.toUpper = "$XFD$1048576".toList := by decide
  have hback := hread _ hin
  rw [htext, hcapitals] at hback
  exact ⟨hcell, htext.trans hcapitals, hin, hback⟩

/-! ## Scanning at a place

The error for a column comes before any row is looked for. So the shape of a
reference and the shape that leads to the error are two, and `scan_outcomes`
needs both. -/

/-- **A text begins in the shape of a reference**: perhaps an anchor, one to
three letters, perhaps an anchor, and digits of which the first is no zero. More
letters than three leave no room for an anchor or a digit behind them, and all
digits are taken. -/
def HasShape (text : List Char) : Prop :=
  ∃ (s : Spelling) (rest : List Char), text = s.text ++ rest ∧ Text.Stops Char.isDigit rest

/-- **A text begins past the last column**: perhaps an anchor, and one to three
letters, but no more of them, that go further than those of the last column. -/
def PastColumns (text : List Char) : Prop :=
  ∃ (s : Column.Spelling) (rest : List Char),
    text = s.text ++ rest ∧ Text.Stops Char.isAlpha rest ∧ maxColumns < s.number

theorem scan_eq_error_iff {text : List Char} {fault : ReferenceError} :
    scan text = .error fault ↔
      (∃ (s : Column.Spelling) (rest : List Char), text = s.text ++ rest
          ∧ Text.Stops Char.isAlpha rest ∧ maxColumns < s.number
          ∧ fault = .columnOutOfRange (s.number - 1))
        ∨ ∃ (s : Spelling) (rest : List Char), text = s.text ++ rest
          ∧ Text.Stops Char.isDigit rest ∧ s.column.number ≤ maxColumns
          ∧ maxRows < s.row.number ∧ fault = .rowOutOfRange (min s.row.number (2 ^ 64 - 1)) := by
  refine ⟨fun h => ?_, ?_⟩
  · rcases scan_cases text with hnone | ⟨s, rest, rfl, hrest, hcolumn⟩
      | ⟨s, rest, rfl, hrest, hpast⟩
    · rw [hnone] at h
      cases h
    · rcases Nat.lt_or_ge maxRows s.row.number with hpast | hrow
      · rw [Spelling.scan_append_of_row hcolumn hpast hrest] at h
        exact .inr ⟨s, rest, rfl, hrest, hcolumn, hpast, (Except.error.inj h).symm⟩
      · rw [Spelling.scan_append ⟨hcolumn, hrow⟩ hrest] at h
        cases h
    · rw [scan_append_of_column hpast hrest] at h
      exact .inl ⟨s, rest, rfl, hrest, hpast, (Except.error.inj h).symm⟩
  · rintro (⟨s, rest, rfl, hrest, hpast, rfl⟩ | ⟨s, rest, rfl, hrest, hcolumn, hpast, rfl⟩)
    · exact scan_append_of_column hpast hrest
    · exact Spelling.scan_append_of_row hcolumn hpast hrest

/-- **There is nothing** where neither a reference nor a column past the last
one begins. -/
theorem scan_eq_none_iff {text : List Char} :
    scan text = .ok none ↔ ¬ HasShape text ∧ ¬ PastColumns text := by
  refine ⟨fun h => ⟨?_, ?_⟩, fun ⟨hshape, hcolumns⟩ => ?_⟩
  · rintro ⟨s, rest, rfl, hrest⟩
    rcases Nat.lt_or_ge maxColumns s.column.number with hpast | hcolumn
    · rw [s.text_append, scan_append_of_column hpast (s.row.stops_isAlpha rest)] at h
      cases h
    · rcases Nat.lt_or_ge maxRows s.row.number with hpast | hrow
      · rw [Spelling.scan_append_of_row hcolumn hpast hrest] at h
        cases h
      · rw [Spelling.scan_append ⟨hcolumn, hrow⟩ hrest] at h
        cases h
  · rintro ⟨s, rest, rfl, hrest, hpast⟩
    rw [scan_append_of_column hpast hrest] at h
    cases h
  · rcases scan_cases text with hnone | ⟨s, rest, htext, hrest, -⟩ | hpast
    · exact hnone
    · exact absurd ⟨s, rest, htext, hrest⟩ hshape
    · exact absurd hpast hcolumns

/-- **What is found at a place of a text.** A cell is found just when the
spelling of a cell of the sheet begins there, and it ends behind all of its
digits. An error is given for letters past those of the last column, whatever
follows them, and for a reference whose row is past the last one. Nothing is
found everywhere else: where there is no shape of a reference and no column past
the last one either. -/
theorem scan_outcomes {whole text : List Char} {place : ℕ}
    (h : Text.fromByte? place whole = some text) :
    (∀ cell rest, scan text = .ok (some (cell, rest)) ↔
        ∃ s : Spelling, text = s.text ++ rest ∧ Text.Stops Char.isDigit rest ∧ s.InSheet
          ∧ s.cell = cell ∧ Text.position whole rest = place + Text.byteLength s.text)
      ∧ (∀ fault, scan text = .error fault ↔
          (∃ (s : Column.Spelling) (rest : List Char), text = s.text ++ rest
              ∧ Text.Stops Char.isAlpha rest ∧ maxColumns < s.number
              ∧ fault = .columnOutOfRange (s.number - 1))
            ∨ ∃ (s : Spelling) (rest : List Char), text = s.text ++ rest
              ∧ Text.Stops Char.isDigit rest ∧ s.column.number ≤ maxColumns
              ∧ maxRows < s.row.number
              ∧ fault = .rowOutOfRange (min s.row.number (2 ^ 64 - 1)))
      ∧ (scan text = .ok none ↔ ¬ HasShape text ∧ ¬ PastColumns text) := by
  refine ⟨fun cell rest => ?_, fun _ => scan_eq_error_iff, scan_eq_none_iff⟩
  rw [scan_eq_some_iff]
  refine exists_congr fun s => ⟨?_, ?_⟩
  · rintro ⟨rfl, hrest, hin, hcell⟩
    obtain ⟨front, rfl, rfl⟩ := Text.fromByte?_eq_some_iff.1 h
    refine ⟨rfl, hrest, hin, hcell, ?_⟩
    rw [← List.append_assoc, Text.position_append, Text.byteLength_append]
  · rintro ⟨htext, hrest, hin, hcell, -⟩
    exact ⟨htext, hrest, hin, hcell⟩

/-- A cell in a formula, before a letter that is no part of it: `=$ab12x`. -/
theorem scan_outcomes_inFormula :
    Text.fromByte? 1 "=$ab12x".toList = some "$ab12x".toList
      ∧ scan "$ab12x".toList = .ok (some (⟨⟨27, .absolute⟩, ⟨11, .relative⟩⟩, ['x'])) := by
  have hplace : Text.fromByte? 1 "=$ab12x".toList = some "$ab12x".toList := by decide +kernel
  refine ⟨hplace, ((scan_outcomes hplace).1 _ _).2 ⟨⟨
    ⟨.absolute, ['a', 'b'], List.all_eq_true.1 rfl, by decide, by decide⟩,
    ⟨.relative, ['1', '2'], List.all_eq_true.1 rfl, by decide, by decide⟩⟩, ?_⟩⟩
  exact ⟨rfl, rfl, ⟨by decide, by decide⟩, rfl, by decide⟩

/-- **A name is taken for a column past the last one**: where the call `YES(`
begins there is no shape of a reference, and still an error is given instead of
nothing. -/
theorem scan_nameOfThreeLetters :
    ¬ HasShape "YES(".toList ∧ scan "YES(".toList = .error (.columnOutOfRange 17048) := by
  have hdigit : "YES(".toList.all (fun c => !c.isDigit) = true := by decide
  refine ⟨?_, by decide +kernel⟩
  rintro ⟨s, rest, htext, -⟩
  obtain ⟨c, digits, hdigits⟩ := List.exists_cons_of_ne_nil s.row.digits_ne_nil
  have hc : c ∈ s.row.digits := hdigits ▸ List.mem_cons_self
  have hmem : c ∈ "YES(".toList := by
    rw [htext]
    exact List.mem_append_left _
      (List.mem_append_right _ (List.mem_append_right _ hc))
  have hno := List.all_eq_true.1 hdigit c hmem
  rw [s.row.isDigit c hc] at hno
  cases hno

end Cell

end Worksheet
