import Worksheet.Proofs.Reference.RoundTrip
import Worksheet.Reference.Selection

/-!
# Selections are read as they are written

The text of a cell, of a range of several cells and of a label is read back as
the same selection (`Selection.ofText?_cell`, `Selection.ofText?_range`,
`Selection.ofText?_label`). A text is tried as a cell first. That of a range
goes on with a colon behind its first corner, and that of a label is no cell
because labels are checked for it.

The range of one cell is written as that cell, and read back as it.
-/

namespace Worksheet

theorem Cell.isPart_of_mem_text {cell : Cell} {c : Char} (h : c ∈ cell.text) :
    Cell.isPart c = true := by
  have hanchor : ∀ {anchor : Anchor}, c ∈ anchor.sign → Cell.isPart c = true := by
    intro anchor hc
    cases anchor with
    | relative => cases hc
    | absolute =>
      obtain rfl := List.mem_singleton.1 hc
      rfl
  rw [Cell.text, Column.text, Row.text, List.mem_append, List.mem_append, List.mem_append] at h
  rw [Cell.isPart, Char.isAlphanum]
  rcases h with (h | h) | h | h
  · exact hanchor h
  · rw [Column.isAlpha_of_mem_letters h]
    rfl
  · exact hanchor h
  · rw [Text.isDigit_of_mem_ofNat h, Bool.or_true]
    rfl

theorem Cell.ofText?_text {cell : Cell} (h : cell.InSheet) : Cell.ofText? cell.text = .ok cell := by
  rw [Cell.ofText?, Cell.scan_text h]
  rfl

/-- There is no colon in the text of a cell, so the text before a colon is all
of it. -/
theorem Cell.takeWhile_text_append (cell : Cell) (rest : List Char) :
    (cell.text ++ ':' :: rest).takeWhile (· != ':') = cell.text
      ∧ (cell.text ++ ':' :: rest).dropWhile (· != ':') = ':' :: rest := by
  have hrun : Text.takeRun (· != ':') (cell.text ++ ':' :: rest) = (cell.text, ':' :: rest) := by
    refine Text.takeRun_append_of_all (fun c hc => bne_iff_ne.2 ?_) rfl
    rintro rfl
    cases Cell.isPart_of_mem_text hc
  exact Prod.mk.inj hrun

/-- A range of several cells is what its text names: the text is cut at the
colon, and both parts are cells. -/
theorem CellRange.ofText?_text {a b : Cell} (ha : a.InSheet) (hb : b.InSheet)
    (hseveral : (spanning a b).isSingle = false) :
    CellRange.ofText? (spanning a b).text = .ok (spanning a b) := by
  obtain ⟨hfirst, hlast⟩ := inSheet_spanning ha hb
  obtain ⟨htaken, hdropped⟩ :=
    Cell.takeWhile_text_append (spanning a b).first (spanning a b).last.text
  rw [text, hseveral, if_neg Bool.false_ne_true, ofText?, hdropped]
  simp only [htaken, Cell.ofText?_text hfirst, Cell.ofText?_text hlast]
  exact congrArg Except.ok (spanning_corners a b)

theorem CellRange.ofText?_text_cell {range : CellRange} (h : range.first.InSheet)
    (hseveral : range.isSingle = false) : ∃ fault, Cell.ofText? range.text = .error fault := by
  rw [text, hseveral, if_neg Bool.false_ne_true, Cell.ofText?,
    Cell.scan_text_append h (Text.stops_cons.2 rfl)]
  exact ⟨_, rfl⟩

/-! ## Labels -/

/-- **A valid spelling** begins as a name does, goes on as one, and is no cell. -/
theorem Label.exists_of_valid {text : List Char} (h : fault? text = none) :
    ∃ first tail, text = first :: tail ∧ isStart first = true ∧ (∀ c ∈ tail, isPart c = true)
      ∧ ∃ fault, Cell.ofText? text = .error fault := by
  cases text with
  | nil => cases h
  | cons first tail =>
    rw [fault?] at h
    split at h
    · cases h
    · rename_i hstart
      split at h
      · cases h
      · rename_i hpart
        split at h
        · cases h
        · split at h
          · cases h
          · rename_i fault hcell
            exact ⟨first, tail, rfl, by simpa using hstart, List.dropWhile_eq_nil_iff.1 hpart,
              fault, hcell⟩

theorem Label.text_of_ofText? {text : List Char} {label : Label}
    (h : ofText? text = .ok label) : label.text = text := by
  unfold ofText? at h
  split at h
  · cases h
  · rw [← Except.ok.inj h]

/-- A label is what its spelling gives, as the spelling is a valid one. -/
theorem Label.ofText?_text (label : Label) : ofText? label.text = .ok label := by
  unfold ofText?
  split
  · rename_i fault hfault
    rw [label.valid] at hfault
    cases hfault
  · rfl

/-! ## Selections

Cells, ranges and labels are tried in this order, and none of the texts is one
of an earlier kind. A range of a single cell is written as the cell and is read
as one. -/

namespace Selection

/-- **A cell is read as it is written**, being tried first. -/
theorem ofText?_cell {target : Cell} (h : target.InSheet) :
    ofText? (cell target).text = some (cell target) := by
  rw [text, ofText?, Cell.ofText?_text h]

/-- **A range of several cells is read as it is written.** Its text names no
cell. -/
theorem ofText?_range {a b : Cell} (ha : a.InSheet) (hb : b.InSheet)
    (hseveral : (CellRange.spanning a b).isSingle = false) :
    ofText? (range (.spanning a b)).text = some (range (.spanning a b)) := by
  obtain ⟨fault, hfault⟩ :=
    CellRange.ofText?_text_cell (CellRange.inSheet_spanning ha hb).1 hseveral
  have hcolon : (CellRange.spanning a b).text.contains ':' = true := by
    rw [CellRange.text, hseveral, if_neg Bool.false_ne_true, List.contains_iff_mem]
    exact List.mem_append_right _ List.mem_cons_self
  rw [text, ofText?, hfault]
  simp only [hcolon, if_true, CellRange.ofText?_text ha hb hseveral]
  rfl

/-- **A label is read as it is written.** Its text names no cell and has no
colon. -/
theorem ofText?_label (target : Label) : ofText? (label target).text = some (label target) := by
  obtain ⟨first, tail, htext, hstart, hpart, fault, hfault⟩ := Label.exists_of_valid target.valid
  have hcolon : target.text.contains ':' = false := by
    rw [← Bool.not_eq_true, List.contains_iff_mem, htext, List.mem_cons]
    rintro (rfl | hmem)
    · cases hstart
    · cases hpart _ hmem
  rw [text, ofText?, hfault]
  simp only [hcolon, Bool.false_eq_true, if_false, Label.ofText?_text]
  rfl

end Selection

end Worksheet
