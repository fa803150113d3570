import Worksheet.Proofs.Answers
import Worksheet.Proofs.Calendar.Iso
import Worksheet.Proofs.Reference.Selections
import Worksheet.Stored.Value

/-!
# Stored values are read back

A value that is stored and read back is the same value
(`Value.ofDatum?_toDatum`), and so are the references and error values it may
hold. What is stored has to fit the words it is kept in: whole numbers 64 bits
with a sign, the numbers of columns and rows 32 bits. Every cell of the sheet
does. A time has to be one that a clock shows, since its text is what is kept of
it.

Nothing else is asked of references and times, and nothing else is read:
whatever comes out of stored data fits these words
(`Cell.storable_of_ofDatum?`).
-/

namespace Worksheet

namespace Datum

/-- **A natural number is read back** when it has no more bits than are read. -/
theorem nat?_ofNat {bits n : ℕ} (h : n < 2 ^ bits) : (Datum.ofNat n).nat? bits = some n := by
  have hbounds : (0 : ℤ) ≤ n ∧ (n : ℤ) ≤ 2 ^ bits - 1 := by
    have hcast : (n : ℤ) < 2 ^ bits := by exact_mod_cast h
    omega
  rw [nat?, ofNat, between?, if_pos hbounds]
  rfl

theorem lt_of_nat? {bits n : ℕ} {datum : Datum} (h : datum.nat? bits = some n) : n < 2 ^ bits := by
  obtain ⟨value, hvalue, rfl⟩ := Option.map_eq_some_iff.1 h
  unfold between? at hvalue
  split at hvalue
  · split_ifs at hvalue with hbounds
    obtain rfl := Option.some.inj hvalue
    refine (Int.toNat_lt hbounds.1).2 ?_
    push_cast
    exact Int.lt_of_le_sub_one hbounds.2
  · cases hvalue

theorem coordinate?_ofCoordinate {index : ℕ} (h : index < 2 ^ 32) (anchor : Anchor) :
    (Datum.ofCoordinate index anchor).coordinate? = some (index, anchor) := by
  have hanchor : (name anchor.storedName).choice? Anchor.all Anchor.storedName = some anchor := by
    cases anchor <;> rfl
  have hfields : (Datum.ofCoordinate index anchor).coordinate?
      = ((Datum.ofNat index).nat? 32).bind fun index =>
        ((name anchor.storedName).choice? Anchor.all Anchor.storedName).bind fun anchor =>
          some (index, anchor) := rfl
  rw [hfields, nat?_ofNat h, hanchor]
  rfl

theorem lt_of_coordinate? {index : ℕ} {anchor : Anchor} {datum : Datum}
    (h : datum.coordinate? = some (index, anchor)) : index < 2 ^ 32 := by
  unfold coordinate? at h
  split at h
  · simp only [Option.bind_eq_bind, Option.bind_eq_some_iff] at h
    obtain ⟨n, hn, _, -, h⟩ := h
    rw [← (Prod.mk.inj (Option.some.inj h)).1]
    exact lt_of_nat? hn
  · cases h

/-- What may be missing is read back, as long as what is there is never written
as null. Null is how what is missing is read. -/
theorem option?_ofOption {α : Type} {read? : Datum → Option α} {write : α → Datum} {o : Option α}
    (hnull : ∀ a, (write a).isNull = false) (h : ∀ a ∈ o, read? (write a) = some a) :
    (ofOption write o).option? read? = some o := by
  cases o with
  | none => rfl
  | some a =>
    rw [ofOption, option?, hnull, if_neg Bool.false_ne_true, h a rfl]
    rfl

end Datum

/-! ## References

Indices are stored as numbers of 32 bits, which is more than the sheet has.
What is asked of a cell is the bound of the words and not that of the sheet. -/

/-- A cell whose numbers have 32 bits. Every cell of the sheet is one. -/
structure Cell.Storable (cell : Cell) : Prop where
  column : cell.column.index < 2 ^ 32
  row : cell.row.index < 2 ^ 32

theorem Column.ofDatum?_toDatum {column : Column} (h : column.index < 2 ^ 32) :
    Column.ofDatum? column.toDatum = some column :=
  congrArg (Option.map _) (Datum.coordinate?_ofCoordinate h column.anchor)

theorem Column.index_lt_of_ofDatum? {column : Column} {datum : Datum}
    (h : Column.ofDatum? datum = some column) : column.index < 2 ^ 32 := by
  obtain ⟨_, hread, rfl⟩ := Option.map_eq_some_iff.1 h
  exact Datum.lt_of_coordinate? hread

theorem Row.ofDatum?_toDatum {row : Row} (h : row.index < 2 ^ 32) :
    Row.ofDatum? row.toDatum = some row :=
  congrArg (Option.map _) (Datum.coordinate?_ofCoordinate h row.anchor)

theorem Row.index_lt_of_ofDatum? {row : Row} {datum : Datum}
    (h : Row.ofDatum? datum = some row) : row.index < 2 ^ 32 := by
  obtain ⟨_, hread, rfl⟩ := Option.map_eq_some_iff.1 h
  exact Datum.lt_of_coordinate? hread

/-- **A stored cell is read back**, by its column and its row. -/
theorem Cell.ofDatum?_toDatum {cell : Cell} (h : cell.Storable) :
    Cell.ofDatum? cell.toDatum = some cell := by
  have hfields : Cell.ofDatum? cell.toDatum
      = (Column.ofDatum? cell.column.toDatum).bind fun column =>
        (Row.ofDatum? cell.row.toDatum).bind fun row => some ⟨column, row⟩ := rfl
  rw [hfields, Column.ofDatum?_toDatum h.column, Row.ofDatum?_toDatum h.row]
  rfl

/-- **The numbers of a cell that is read have 32 bits.** -/
theorem Cell.storable_of_ofDatum? {cell : Cell} {datum : Datum}
    (h : Cell.ofDatum? datum = some cell) : cell.Storable := by
  unfold ofDatum? at h
  split at h
  · simp only [Option.bind_eq_bind, Option.bind_eq_some_iff] at h
    obtain ⟨column, hcolumn, row, hrow, h⟩ := h
    obtain rfl := Option.some.inj h
    exact ⟨Column.index_lt_of_ofDatum? hcolumn, Row.index_lt_of_ofDatum? hrow⟩
  · cases h

/-- **A stored range is read back.** -/
theorem CellRange.ofDatum?_toDatum {range : CellRange} (hfirst : range.first.Storable)
    (hlast : range.last.Storable) : CellRange.ofDatum? range.toDatum = some range := by
  have hfields : CellRange.ofDatum? range.toDatum
      = (Cell.ofDatum? range.first.toDatum).bind fun first =>
        (Cell.ofDatum? range.last.toDatum).bind fun last => some ⟨first, last⟩ := rfl
  rw [hfields, Cell.ofDatum?_toDatum hfirst, Cell.ofDatum?_toDatum hlast]
  rfl

theorem CellRange.storable_of_ofDatum? {range : CellRange} {datum : Datum}
    (h : CellRange.ofDatum? datum = some range) :
    range.first.Storable ∧ range.last.Storable := by
  unfold ofDatum? at h
  split at h
  · simp only [Option.bind_eq_bind, Option.bind_eq_some_iff] at h
    obtain ⟨first, hfirst, last, hlast, h⟩ := h
    obtain rfl := Option.some.inj h
    exact ⟨Cell.storable_of_ofDatum? hfirst, Cell.storable_of_ofDatum? hlast⟩
  · cases h

/-- **A stored label is read back**: its spelling is still a valid one. -/
theorem Label.ofDatum?_toDatum (label : Label) : Label.ofDatum? label.toDatum = some label :=
  congrArg Except.toOption label.ofText?_text

/-- **A label is read from a text that spells it**, and from nothing else. -/
theorem Label.ofDatum?_eq_some_iff {label : Label} {datum : Datum} :
    Label.ofDatum? datum = some label ↔
      ∃ text, datum = .text text ∧ Label.ofText? text = .ok label := by
  cases datum with
  | text text =>
    refine ⟨fun h => ⟨text, rfl, eq_ok_of_toOption h⟩, ?_⟩
    rintro ⟨_, heq, hread⟩
    obtain rfl := Datum.text.inj heq
    exact congrArg Except.toOption hread
  | _ => exact ⟨nofun, nofun⟩

namespace Selection

/-- A selection whose numbers have 32 bits. -/
def Storable : Selection → Prop
  | .cell target => target.Storable
  | .range target => target.first.Storable ∧ target.last.Storable
  | .column target => target.index < 2 ^ 32
  | .row target => target.index < 2 ^ 32
  | .label _ => True

/-- **A stored selection is read back.** -/
theorem ofDatum?_toDatum {selection : Selection} (h : selection.Storable) :
    ofDatum? selection.toDatum = some selection := by
  cases selection with
  | cell target => exact congrArg (Option.map cell) (Cell.ofDatum?_toDatum h)
  | range target => exact congrArg (Option.map range) (CellRange.ofDatum?_toDatum h.1 h.2)
  | column target => exact congrArg (Option.map column) (Column.ofDatum?_toDatum h)
  | row target => exact congrArg (Option.map row) (Row.ofDatum?_toDatum h)
  | label target => exact congrArg (Option.map label) (Label.ofDatum?_toDatum target)

end Selection

/-! ## Errors, dates and times -/

theorem CellErrorKind.ofDatum?_toDatum (kind : CellErrorKind) :
    CellErrorKind.ofDatum? kind.toDatum = some kind := by
  cases kind <;> rfl

/-- **A stored error value is read back**, with its explanation if it has one. -/
theorem CellError.ofDatum?_toDatum (error : CellError) :
    CellError.ofDatum? error.toDatum = some error := by
  obtain ⟨kind, explanation⟩ := error
  have hkind := kind.ofDatum?_toDatum
  have hfields : CellError.ofDatum? (CellError.mk kind explanation).toDatum
      = (CellErrorKind.ofDatum? kind.toDatum).bind fun kind =>
        ((Datum.ofOption .text explanation).option? Datum.text?).bind fun explanation =>
          some ⟨kind, explanation⟩ := rfl
  rw [hfields, hkind]
  cases explanation <;> rfl

/-- **A stored date is read back.** -/
theorem Date.ofDatum?_toDatum (date : Date) : Date.ofDatum? date.toDatum = some date :=
  Iso.date?_text date

/-- **A stored time of day is read back.** -/
theorem TimeOfDay.ofDatum?_toDatum {time : TimeOfDay} (h : time.IsProper) :
    TimeOfDay.ofDatum? time.toDatum = some time :=
  Iso.time?_text h

/-- A time that is read is one that a clock shows. -/
theorem TimeOfDay.isProper_of_ofDatum? {time : TimeOfDay} {datum : Datum}
    (h : TimeOfDay.ofDatum? datum = some time) : time.IsProper := by
  obtain ⟨_, -, hread⟩ := Option.bind_eq_some_iff.1 h
  exact Iso.isProper_of_time? hread

/-- **A stored date with a time is read back.** -/
theorem DateTime.ofDatum?_toDatum {moment : DateTime} (h : moment.time.IsProper) :
    DateTime.ofDatum? moment.toDatum = some moment :=
  Iso.dateTime?_textWith h

theorem DateTime.isProper_of_ofDatum? {moment : DateTime} {datum : Datum}
    (h : DateTime.ofDatum? datum = some moment) : moment.time.IsProper := by
  obtain ⟨_, -, hread⟩ := Option.bind_eq_some_iff.1 h
  exact Iso.isProper_of_dateTime? hread

/-! ## Values

Numbers and texts are part of the data as they are. Only whole numbers and the
parts of references and times are bounded, by the words they are read into. -/

namespace Value

/-- A value that fits the words it is kept in. -/
def Storable : Value → Prop
  | .int value => -(2 ^ 63) ≤ value ∧ value ≤ 2 ^ 63 - 1
  | .dateTime value => value.time.IsProper
  | .time value => value.IsProper
  | .selection value => value.Storable
  | .number _ | .text _ | .boolean _ | .date _ | .error _ | .empty => True

/-- **A stored value is read back.** -/
theorem ofDatum?_toDatum {value : Value} (h : value.Storable) :
    ofDatum? value.toDatum = some value := by
  cases value with
  | int value => exact congrArg (Option.map int) (if_pos h)
  | date value => exact congrArg (Option.map date) value.ofDatum?_toDatum
  | dateTime value => exact congrArg (Option.map dateTime) (DateTime.ofDatum?_toDatum h)
  | time value => exact congrArg (Option.map time) (TimeOfDay.ofDatum?_toDatum h)
  | selection value => exact congrArg (Option.map selection) (Selection.ofDatum?_toDatum h)
  | error value => exact congrArg (Option.map error) value.ofDatum?_toDatum
  | number | text | boolean | empty => rfl

end Value

end Worksheet
