import Mathlib.Data.Set.Card
import Mathlib.Order.Interval.Finset.Nat
import Worksheet.Proofs.Reference.Order
import Worksheet.Proofs.Reference.Selections

/-!
# Ranges are rectangles of cells

A range that is spanned by two cells goes from the lesser to the greater of
their columns and of their rows, and has no anchors (`CellRange.spanning_eq`).
So it does not matter which of two opposite corners comes first, nor which pair
of opposite corners is given, nor how they are anchored.

All else follows from the four bounds: what a range contains, that its sides are
no shorter than one cell and their product counts its cells
(`CellRange.ncard_cells`), that ranges with the same cells are the same
(`CellRange.spanning_eq_spanning_iff`), and that a range is what its text names
(`CellRange.ofText?_text_spanning`).
-/

namespace Worksheet

/-- The cell without anchors at a column and a row. -/
def Cell.ofPlace (place : ℕ × ℕ) : Cell :=
  ⟨⟨place.1, .relative⟩, ⟨place.2, .relative⟩⟩

theorem Cell.ofPlace_injective : Function.Injective Cell.ofPlace := fun place place' h => by
  obtain ⟨hcolumn, hrow⟩ := Cell.mk.inj h
  exact Prod.ext (Column.mk.inj hcolumn).1 (Row.mk.inj hrow).1

namespace CellRange

theorem index_of_sorted {α : Type} (index : α → ℕ) (x y : α) :
    index (if index x ≤ index y then (x, y) else (y, x)).1 = min (index x) (index y)
      ∧ index (if index x ≤ index y then (x, y) else (y, x)).2 = max (index x) (index y) := by
  split
  · rw [min_eq_left ‹_›, max_eq_right ‹_›]
    exact ⟨rfl, rfl⟩
  · rw [min_eq_right (by omega), max_eq_left (by omega)]
    exact ⟨rfl, rfl⟩

/-- **The bounds of a spanned range.** -/
theorem spanning_eq (a b : Cell) :
    spanning a b =
      ⟨⟨⟨min a.column.index b.column.index, .relative⟩,
          ⟨min a.row.index b.row.index, .relative⟩⟩,
        ⟨⟨max a.column.index b.column.index, .relative⟩,
          ⟨max a.row.index b.row.index, .relative⟩⟩⟩ := by
  obtain ⟨hleft, hright⟩ := index_of_sorted Column.index a.column b.column
  obtain ⟨htop, hbottom⟩ := index_of_sorted Row.index a.row b.row
  rw [← hleft, ← hright, ← htop, ← hbottom]
  rfl

/-- **A spanned range contains what is between its corners**, whichever comes
first. -/
theorem contains_spanning_iff {a b c : Cell} :
    (spanning a b).contains c = true ↔
      (min a.column.index b.column.index ≤ c.column.index
          ∧ c.column.index ≤ max a.column.index b.column.index)
        ∧ min a.row.index b.row.index ≤ c.row.index
          ∧ c.row.index ≤ max a.row.index b.row.index := by
  rw [spanning_eq]
  simp only [contains, Bool.and_eq_true, decide_eq_true_eq, and_assoc]

theorem contains_corners (a b : Cell) :
    (spanning a b).contains a = true ∧ (spanning a b).contains b = true := by
  rw [contains_spanning_iff, contains_spanning_iff]
  omega

/-- **Ranges are the same** when each contains the corners of the other. -/
theorem spanning_eq_spanning {a b a' b' : Cell} (ha : (spanning a' b').contains a = true)
    (hb : (spanning a' b').contains b = true) (ha' : (spanning a b).contains a' = true)
    (hb' : (spanning a b).contains b' = true) : spanning a b = spanning a' b' := by
  rw [contains_spanning_iff] at ha hb ha' hb'
  have hleft : min a.column.index b.column.index = min a'.column.index b'.column.index := by
    omega
  have hright : max a.column.index b.column.index = max a'.column.index b'.column.index := by
    omega
  have htop : min a.row.index b.row.index = min a'.row.index b'.row.index := by omega
  have hbottom : max a.row.index b.row.index = max a'.row.index b'.row.index := by omega
  rw [spanning_eq, spanning_eq, hleft, hright, htop, hbottom]

/-- **Ranges are the same** when they contain the same among some cells, the
corners of both included. -/
theorem spanning_eq_spanning_iff {cells : Set Cell} {a b a' b' : Cell} (ha : a ∈ cells)
    (hb : b ∈ cells) (ha' : a' ∈ cells) (hb' : b' ∈ cells) :
    spanning a b = spanning a' b' ↔
      ∀ c ∈ cells, (spanning a b).contains c = (spanning a' b').contains c := by
  refine ⟨fun h c _ => by rw [h], fun h => ?_⟩
  obtain ⟨hfirst, hlast⟩ := contains_corners a b
  obtain ⟨hfirst', hlast'⟩ := contains_corners a' b'
  exact spanning_eq_spanning (h a ha ▸ hfirst) (h b hb ▸ hlast) (h a' ha' ▸ hfirst')
    (h b' hb' ▸ hlast')

/-- **The sides of a range count its cells**, each of them once whatever its
anchors. The cells are in bijection with pairs of a column and a row. -/
theorem ncard_cells {range : CellRange}
    (hcolumn : range.first.column.index ≤ range.last.column.index)
    (hrow : range.first.row.index ≤ range.last.row.index) :
    {c : Cell | c.IsRelative ∧ range.contains c = true}.ncard = range.width * range.height := by
  have hcells : {c : Cell | c.IsRelative ∧ range.contains c = true}
      = Cell.ofPlace '' (Finset.Icc range.first.column.index range.last.column.index
          ×ˢ Finset.Icc range.first.row.index range.last.row.index : Finset (ℕ × ℕ)) := by
    ext c
    simp only [Set.mem_ofPred_eq, Set.mem_image, Finset.mem_coe, Finset.mem_product,
      Finset.mem_Icc, contains, Bool.and_eq_true, decide_eq_true_eq]
    constructor
    · rintro ⟨hrelative, ⟨⟨hleft, hright⟩, htop⟩, hbottom⟩
      exact ⟨(c.column.index, c.row.index), ⟨⟨hleft, hright⟩, htop, hbottom⟩, hrelative⟩
    · rintro ⟨place, ⟨⟨hleft, hright⟩, htop, hbottom⟩, rfl⟩
      exact ⟨rfl, ⟨⟨hleft, hright⟩, htop⟩, hbottom⟩
  rw [hcells, Set.ncard_image_of_injective _ Cell.ofPlace_injective,
    Set.ncard_coe_finset,
    Finset.card_product, Nat.card_Icc, Nat.card_Icc, width, height, Nat.sub_add_comm hcolumn,
    Nat.sub_add_comm hrow]

/-- **A range is what its text names**, that of one cell included. -/
theorem ofText?_text_spanning {a b : Cell} (ha : a.InSheet) (hb : b.InSheet) :
    ofText? (spanning a b).text = .ok (spanning a b) := by
  cases hsingle : (spanning a b).isSingle with
  | false => exact ofText?_text ha hb hsingle
  | true =>
    have hsame : (spanning a b).first = (spanning a b).last := beq_iff_eq.1 hsingle
    have hcolon : (spanning a b).first.text.dropWhile (· != ':') = [] := by
      refine List.dropWhile_eq_nil_iff.2 fun c hc => bne_iff_ne.2 ?_
      rintro rfl
      cases Cell.isPart_of_mem_text hc
    have hcorners := spanning_corners a b
    rw [← hsame] at hcorners
    rw [text, hsingle, if_pos rfl, ofText?, hcolon]
    simp only [Cell.ofText?_text (inSheet_spanning ha hb).1]
    exact congrArg Except.ok hcorners

/-- **Ranges are rectangles of cells.** A range spanned by two cells contains
just the cells whose column and row are between those of the two, in either
order. It is the same the other way round, and the same as that of the other two
corners. Its first corner is at or before its last one in both directions, so
its sides are what they should be, and they count its cells. Ranges are the same
just when they contain the same cells, whichever cells are asked about as long
as the corners are among them. A range of cells of the sheet fits there, and is
what its text names. -/
theorem spanning_rectangle (a b : Cell) :
    (∀ c, (spanning a b).contains c = true ↔
        (min a.column.index b.column.index ≤ c.column.index
            ∧ c.column.index ≤ max a.column.index b.column.index)
          ∧ min a.row.index b.row.index ≤ c.row.index
            ∧ c.row.index ≤ max a.row.index b.row.index)
      ∧ spanning b a = spanning a b
      ∧ spanning ⟨a.column, b.row⟩ ⟨b.column, a.row⟩ = spanning a b
      ∧ ((spanning a b).first.column.index ≤ (spanning a b).last.column.index
          ∧ (spanning a b).first.row.index ≤ (spanning a b).last.row.index)
      ∧ (((spanning a b).width : ℤ) = (spanning a b).last.column.index
            - (spanning a b).first.column.index + 1
          ∧ ((spanning a b).height : ℤ) = (spanning a b).last.row.index
            - (spanning a b).first.row.index + 1)
      ∧ {c : Cell | c.IsRelative ∧ (spanning a b).contains c = true}.ncard
          = (spanning a b).width * (spanning a b).height
      ∧ (∀ (a' b' : Cell) (cells : Set Cell), a ∈ cells → b ∈ cells → a' ∈ cells →
          b' ∈ cells → (spanning a b = spanning a' b' ↔
            ∀ c ∈ cells, (spanning a b).contains c = (spanning a' b').contains c))
      ∧ (a.InSheet → b.InSheet →
          ((spanning a b).width ≤ maxColumns ∧ (spanning a b).height ≤ maxRows)
            ∧ ofText? (spanning a b).text = .ok (spanning a b)) := by
  obtain ⟨hcolumn, hrow⟩ := le_spanning a b
  refine ⟨fun c => contains_spanning_iff, ?_, ?_, ⟨hcolumn, hrow⟩, ⟨?_, ?_⟩,
    ncard_cells hcolumn hrow, fun a' b' cells => spanning_eq_spanning_iff, fun ha hb => ⟨?_, ?_⟩⟩
  · rw [spanning_eq, spanning_eq, min_comm, max_comm, min_comm b.row.index,
      max_comm b.row.index]
  · rw [spanning_eq, spanning_eq, min_comm b.row.index, max_comm b.row.index]
  · rw [width]
    omega
  · rw [height]
    omega
  · obtain ⟨-, hlast⟩ := inSheet_spanning ha hb
    have hcolumns := hlast.column
    have hrows := hlast.row
    rw [width, height]
    omega
  · exact ofText?_text_spanning ha hb

/-- The range of `$B$3:A1`, and the same one from its other corners `A$3` and
`B1`. -/
theorem spanning_rectangle_anchored :
    let a : Cell := ⟨⟨1, .absolute⟩, ⟨2, .absolute⟩⟩
    let b : Cell := ⟨⟨0, .relative⟩, ⟨0, .relative⟩⟩
    let a' : Cell := ⟨⟨0, .relative⟩, ⟨2, .absolute⟩⟩
    let b' : Cell := ⟨⟨1, .relative⟩, ⟨0, .relative⟩⟩
    a.InSheet ∧ b.InSheet ∧ a'.InSheet ∧ b'.InSheet
      ∧ spanning a b = spanning a' b'
      ∧ (∀ c : Cell, c.InSheet → (spanning a b).contains c = (spanning a' b').contains c)
      ∧ ofText? (spanning a b).text = .ok (spanning a b) := by
  intro a b a' b'
  have ha : a.InSheet := ⟨by decide, by decide⟩
  have hb : b.InSheet := ⟨by decide, by decide⟩
  have ha' : a'.InSheet := ⟨by decide, by decide⟩
  have hb' : b'.InSheet := ⟨by decide, by decide⟩
  have hsame : spanning a b = spanning a' b' := rfl
  obtain ⟨-, -, -, -, -, -, hcells, hsheet⟩ := spanning_rectangle a b
  exact ⟨ha, hb, ha', hb', hsame, (hcells a' b' {c | c.InSheet} ha hb ha' hb').1 hsame,
    (hsheet ha hb).2⟩

end CellRange

end Worksheet
