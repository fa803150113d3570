import Worksheet.Proofs.Reference.Letters

/-!
# Spellings of columns, rows and cells

A text has the shape of a reference whether the sheet has the cell or not:
perhaps an anchor, one to three letters in either case, perhaps another anchor,
and a number without a leading zero. That is a spelling (`Cell.Spelling`), which
consists of those of its column and its row.

A spelling is scanned up to what cannot be part of it, and all that can go wrong
with it is that the sheet ends before (`Column.Spelling.scan_append`,
`Row.Spelling.scan_append`, `Cell.Spelling.scan_append`). The other way round, a
text at which something is found, right or wrong, begins with a spelling
(`Column.exists_spelling_of_scan`, `Row.exists_spelling_of_scan`).
-/

namespace Worksheet

namespace Anchor

/-- **An anchor is taken from the front**, or nothing is. -/
theorem sign_append_scan (text : List Char) : (scan text).1.sign ++ (scan text).2 = text := by
  unfold scan
  split <;> rfl

/-- An anchor is read back before a coordinate. -/
theorem scan_sign_append (anchor : Anchor) {text : List Char} (h : text.head? ≠ some '$') :
    scan (anchor.sign ++ text) = (anchor, text) := by
  cases anchor with
  | absolute => rfl
  | relative =>
    rw [sign, List.nil_append]
    unfold scan
    split
    · exact absurd rfl h
    · rfl

theorem map_toUpper_sign (anchor : Anchor) : anchor.sign.map Char.toUpper = anchor.sign := by
  cases anchor <;> rfl

end Anchor

theorem head?_append_ne {p : Char → Bool} {c : Char} {run : List Char} (rest : List Char)
    (hall : ∀ c ∈ run, p c = true) (hrun : run ≠ []) (hc : p c = false) :
    (run ++ rest).head? ≠ some c := by
  rw [List.head?_append, List.head?_eq_some_head hrun, Option.some_or]
  intro heq
  rw [← Option.some.inj heq, hall _ (List.head_mem hrun)] at hc
  cases hc

/-! ## Columns

A spelling holds an anchor and letters, with what makes them a spelling. Up to
three letters always lead to a column within the limit of reading, so only the
sheet can refuse it. -/

/-- **The spelling of a column**: perhaps an anchor, and one to three letters. -/
structure Column.Spelling where
  /-- Whether there is an anchor. -/
  anchor : Anchor
  /-- The letters, in either case. -/
  name : List Char
  isAlpha : ∀ c ∈ name, c.isAlpha = true
  name_ne_nil : name ≠ []
  length_le : name.length ≤ 3

namespace Column.Spelling

def text (s : Spelling) : List Char :=
  s.anchor.sign ++ s.name

def number (s : Spelling) : ℕ :=
  lettersValue s.name

def column (s : Spelling) : Column :=
  ⟨s.number - 1, s.anchor⟩

theorem number_pos (s : Spelling) : 0 < s.number :=
  lettersValue_pos s.name_ne_nil

/-- Three letters are within the limit. -/
theorem ofLetters?_name (s : Spelling) : ofLetters? s.name = some (s.number - 1) := by
  have hpos := s.number_pos
  have hvalue := lettersValue_lt s.isAlpha
  have hpow : 27 ^ s.name.length ≤ 27 ^ 3 := Nat.pow_le_pow_right (by decide) s.length_le
  have hlimit : (27 : ℕ) ^ 3 < indexLimit := by decide
  unfold number at hpos ⊢
  exact ofLetters?_eq_some_iff.2 ⟨s.isAlpha, by omega, by omega⟩

/-- **A column is scanned** up to where its letters end. -/
theorem scan_append (s : Spelling) {rest : List Char} (hrest : Text.Stops Char.isAlpha rest) :
    scan (s.text ++ rest) =
      if s.number ≤ maxColumns then .ok (some (s.column, rest))
      else .error (.columnOutOfRange (s.number - 1)) := by
  have hpos := s.number_pos
  have hsign := Anchor.scan_sign_append s.anchor
    (head?_append_ne rest s.isAlpha s.name_ne_nil (c := '$') rfl)
  have hlength := s.length_le
  have hsize : ¬(s.name.isEmpty || 3 < s.name.length) = true := by
    simp [s.name_ne_nil]
    omega
  unfold scan text
  rw [List.append_assoc, hsign]
  simp only [Text.takeRun_append_of_all s.isAlpha hrest, if_neg hsize, s.ofLetters?_name, ofIndex?]
  split
  · rw [if_pos (by omega)]
    rfl
  · rw [if_neg (by omega)]
    rfl

end Column.Spelling

/-- **What is no name without a column is the spelling of one**, up to where its
letters end. -/
theorem Column.exists_spelling_of_scan {text : List Char} (h : scan text ≠ .ok none) :
    ∃ (s : Spelling) (rest : List Char), text = s.text ++ rest ∧ Text.Stops Char.isAlpha rest := by
  have hsize : ¬(((Anchor.scan text).2.takeWhile Char.isAlpha).isEmpty
      || 3 < ((Anchor.scan text).2.takeWhile Char.isAlpha).length) = true :=
    fun hsize => h (if_pos hsize)
  simp only [Bool.or_eq_true, List.isEmpty_iff, decide_eq_true_eq, not_or, not_lt] at hsize
  refine ⟨⟨(Anchor.scan text).1, (Anchor.scan text).2.takeWhile Char.isAlpha,
    fun c => List.mem_takeWhile_imp, hsize.1, hsize.2⟩,
    (Anchor.scan text).2.dropWhile Char.isAlpha, ?_, Text.stops_dropWhile _ _⟩
  rw [Spelling.text, List.append_assoc, List.takeWhile_append_dropWhile, Anchor.sign_append_scan]

/-! ## Rows

Unlike letters, digits may go on without end. A row past the last one is still
a spelling, and is scanned to its end before it is refused. -/

/-- **The spelling of a row**: perhaps an anchor, and digits of which the first
is no zero. -/
structure Row.Spelling where
  /-- Whether there is an anchor. -/
  anchor : Anchor
  /-- The digits. -/
  digits : List Char
  isDigit : ∀ c ∈ digits, c.isDigit = true
  digits_ne_nil : digits ≠ []
  head?_ne_zero : digits.head? ≠ some '0'

namespace Row.Spelling

def text (s : Spelling) : List Char :=
  s.anchor.sign ++ s.digits

def number (s : Spelling) : ℕ :=
  Text.digitsValue s.digits

def row (s : Spelling) : Row :=
  ⟨s.number - 1, s.anchor⟩

/-- **The digits are those of the number**, which is not zero. -/
theorem number_spec (s : Spelling) : 0 < s.number ∧ Text.ofNat s.number = s.digits := by
  have hall : s.digits.dropWhile (· == '0') = s.digits := by
    obtain ⟨anchor, digits, isDigit, digits_ne_nil, head?_ne_zero⟩ := s
    cases digits with
    | nil => rfl
    | cons c digits => exact List.dropWhile_cons_of_neg (by simpa using head?_ne_zero)
  have hsignificant := hall.symm.trans (Text.dropWhile_zero_eq s.isDigit)
  rcases Nat.eq_zero_or_pos s.number with hzero | hpos
  · exact absurd (hsignificant.trans (if_pos hzero)) s.digits_ne_nil
  · exact ⟨hpos, (hsignificant.trans (if_neg hpos.ne')).symm⟩

theorem stops_isAlpha (s : Spelling) (rest : List Char) :
    Text.Stops Char.isAlpha (s.text ++ rest) := by
  obtain ⟨anchor, digits, isDigit, digits_ne_nil, -⟩ := s
  cases anchor with
  | absolute => rfl
  | relative =>
    cases digits with
    | nil => exact absurd rfl digits_ne_nil
    | cons c digits =>
      exact Text.stops_cons.2 (Text.isAlpha_eq_false_of_isDigit (isDigit c List.mem_cons_self))

/-- **A row is scanned** up to where its digits end. -/
theorem scan_append (s : Spelling) {rest : List Char} (hrest : Text.Stops Char.isDigit rest) :
    scan (s.text ++ rest) =
      if s.number ≤ maxRows then .ok (some (s.row, rest))
      else .error (.rowOutOfRange (min s.number (2 ^ 64 - 1))) := by
  have hsign := Anchor.scan_sign_append s.anchor
    (head?_append_ne rest s.isDigit s.digits_ne_nil (c := '$') rfl)
  have hfirst : ¬(s.digits.isEmpty || s.digits.head? == some '0') = true := by
    simp [s.digits_ne_nil, s.head?_ne_zero]
  have hlimit : maxRows < 2 ^ 64 := by decide
  unfold scan text
  rw [List.append_assoc, hsign]
  simp only [Text.takeRun_append_of_all s.isDigit hrest, if_neg hfirst]
  show (if 2 ^ 64 ≤ s.number then _ else if maxRows < s.number then _ else _) = _
  by_cases hin : s.number ≤ maxRows
  · rw [if_pos hin, if_neg (by omega), if_neg (by omega)]
    rfl
  · rw [if_neg hin, if_pos (Nat.lt_of_not_le hin)]
    split
    · rw [Nat.min_eq_right (by omega)]
    · rw [Nat.min_eq_left (by omega)]
      rfl

end Row.Spelling

/-- **What is no name without a row is the spelling of one**, up to where its
digits end. -/
theorem Row.exists_spelling_of_scan {text : List Char} (h : scan text ≠ .ok none) :
    ∃ (s : Spelling) (rest : List Char), text = s.text ++ rest ∧ Text.Stops Char.isDigit rest := by
  have hfirst : ¬(((Anchor.scan text).2.takeWhile Char.isDigit).isEmpty
      || ((Anchor.scan text).2.takeWhile Char.isDigit).head? == some '0') = true :=
    fun hfirst => h (if_pos hfirst)
  simp only [Bool.or_eq_true, List.isEmpty_iff, beq_iff_eq, not_or] at hfirst
  refine ⟨⟨(Anchor.scan text).1, (Anchor.scan text).2.takeWhile Char.isDigit,
    fun c => List.mem_takeWhile_imp, hfirst.1, hfirst.2⟩,
    (Anchor.scan text).2.dropWhile Char.isDigit, ?_, Text.stops_dropWhile _ _⟩
  rw [Spelling.text, List.append_assoc, List.takeWhile_append_dropWhile, Anchor.sign_append_scan]

/-! ## Cells

The ways a scan can go are told by the front of the text alone: a spelling of
both coordinates, a column past the last one, or neither. The lemmas take one
each, and `scan_cases` says that there are no more. -/

namespace Cell

/-- A cell of the sheet. -/
structure InSheet (cell : Cell) : Prop where
  /-- The sheet has the column. -/
  column : cell.column.index < maxColumns
  /-- The sheet has the row. -/
  row : cell.row.index < maxRows

/-- **The spelling of a cell**: that of its column and that of its row. -/
structure Spelling where
  /-- The column. -/
  column : Column.Spelling
  /-- The row. -/
  row : Row.Spelling

namespace Spelling

def text (s : Spelling) : List Char :=
  s.column.text ++ s.row.text

def cell (s : Spelling) : Cell :=
  ⟨s.column.column, s.row.row⟩

/-- **The sheet has the cell** that is spelled. -/
structure InSheet (s : Spelling) : Prop where
  /-- The letters go no further than those of the last column. -/
  column : s.column.number ≤ maxColumns
  /-- The digits go no further than those of the last row. -/
  row : s.row.number ≤ maxRows

theorem InSheet.cell {s : Spelling} (h : s.InSheet) : s.cell.InSheet where
  column := by
    have hpos := s.column.number_pos
    have hle := h.column
    show s.column.number - 1 < maxColumns
    omega
  row := by
    have hpos := s.row.number_spec.1
    have hle := h.row
    show s.row.number - 1 < maxRows
    omega

theorem text_append (s : Spelling) (rest : List Char) :
    s.text ++ rest = s.column.text ++ (s.row.text ++ rest) :=
  List.append_assoc _ _ _

/-- **A cell of the sheet is scanned** up to where its digits end. -/
theorem scan_append {s : Spelling} (h : s.InSheet) {rest : List Char}
    (hrest : Text.Stops Char.isDigit rest) : scan (s.text ++ rest) = .ok (some (s.cell, rest)) := by
  unfold scan
  rw [s.text_append, s.column.scan_append (s.row.stops_isAlpha rest), if_pos h.column]
  simp only [s.row.scan_append hrest, if_pos h.row]
  rfl

/-- **A row past the last one** is an error, if the column is one of the sheet. -/
theorem scan_append_of_row {s : Spelling} (hcolumn : s.column.number ≤ maxColumns)
    (hrow : maxRows < s.row.number) {rest : List Char} (hrest : Text.Stops Char.isDigit rest) :
    scan (s.text ++ rest) = .error (.rowOutOfRange (min s.row.number (2 ^ 64 - 1))) := by
  unfold scan
  rw [s.text_append, s.column.scan_append (s.row.stops_isAlpha rest), if_pos hcolumn]
  simp only [s.row.scan_append hrest, if_neg (Nat.not_le.2 hrow)]

end Spelling

/-- **A column past the last one** is an error, whatever follows it. -/
theorem scan_append_of_column {s : Column.Spelling} (h : maxColumns < s.number)
    {rest : List Char} (hrest : Text.Stops Char.isAlpha rest) :
    scan (s.text ++ rest) = .error (.columnOutOfRange (s.number - 1)) := by
  unfold scan
  rw [s.scan_append hrest, if_neg (Nat.not_le.2 h)]

/-- **What is neither a cell nor a column past the last one** is nothing. These
are the ways a scan can go, told by what the text begins with. -/
theorem scan_cases (text : List Char) :
    scan text = .ok none
      ∨ (∃ (s : Spelling) (rest : List Char),
          text = s.text ++ rest ∧ Text.Stops Char.isDigit rest ∧ s.column.number ≤ maxColumns)
      ∨ ∃ (s : Column.Spelling) (rest : List Char),
          text = s.text ++ rest ∧ Text.Stops Char.isAlpha rest ∧ maxColumns < s.number := by
  by_cases hcolumn : Column.scan text = .ok none
  · refine .inl ?_
    unfold scan
    rw [hcolumn]
  obtain ⟨column, rest, rfl, hrest⟩ := Column.exists_spelling_of_scan hcolumn
  rcases Nat.lt_or_ge maxColumns column.number with hpast | hin
  · exact .inr (.inr ⟨column, rest, rfl, hrest, hpast⟩)
  by_cases hrow : Row.scan rest = .ok none
  · refine .inl ?_
    unfold scan
    rw [column.scan_append hrest, if_pos hin]
    simp only [hrow]
  · obtain ⟨row, rest, rfl, hstops⟩ := Row.exists_spelling_of_scan hrow
    exact .inr (.inl ⟨⟨column, row⟩, rest, (Spelling.text_append ⟨column, row⟩ rest).symm,
      hstops, hin⟩)

/-- **A cell is found** just where the spelling of a cell of the sheet begins,
and what is left is what follows its digits. -/
theorem scan_eq_some_iff {text rest : List Char} {cell : Cell} :
    scan text = .ok (some (cell, rest)) ↔
      ∃ s : Spelling, text = s.text ++ rest ∧ Text.Stops Char.isDigit rest ∧ s.InSheet
        ∧ s.cell = cell := by
  refine ⟨fun h => ?_, ?_⟩
  · rcases scan_cases text with hnone | ⟨s, rest', rfl, hrest, hcolumn⟩
      | ⟨s, rest', rfl, hrest, hpast⟩
    · rw [hnone] at h
      cases h
    · rcases Nat.lt_or_ge maxRows s.row.number with hpast | hrow
      · rw [Spelling.scan_append_of_row hcolumn hpast hrest] at h
        cases h
      · rw [Spelling.scan_append ⟨hcolumn, hrow⟩ hrest] at h
        obtain ⟨rfl, rfl⟩ := Prod.mk.inj (Option.some.inj (Except.ok.inj h))
        exact ⟨s, rfl, hrest, ⟨hcolumn, hrow⟩, rfl⟩
    · rw [scan_append_of_column hpast hrest] at h
      cases h
  · rintro ⟨s, rfl, hrest, hin, rfl⟩
    exact Spelling.scan_append hin hrest

/-- **A cell that is read is one of the sheet.** -/
theorem inSheet_of_scan {text rest : List Char} {cell : Cell}
    (h : scan text = .ok (some (cell, rest))) : cell.InSheet := by
  obtain ⟨s, -, -, hin, rfl⟩ := scan_eq_some_iff.1 h
  exact hin.cell

/-- What is left after a cell is the end of the text. -/
theorem exists_append_of_scan {text rest : List Char} {cell : Cell}
    (h : scan text = .ok (some (cell, rest))) : ∃ front, text = front ++ rest := by
  obtain ⟨s, htext, -⟩ := scan_eq_some_iff.1 h
  exact ⟨s.text, htext⟩

end Cell

end Worksheet
