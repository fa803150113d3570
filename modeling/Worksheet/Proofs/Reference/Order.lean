import Worksheet.Reference.Label
import Worksheet.Reference.Range

/-!
# The order of cells, ranges and labels

Cells are compared by row, then by column, then by the anchors of both, and
ranges by their first corners and then by their last ones. Both comparisons are
total orders in which only equal things compare equal (`Std.TransCmp`,
`Std.LawfulEqCmp`), so whatever is kept in order by them – the corners of an
index, the ranges found at a cell – has one order only. Labels are compared
without regard to case, and so are equal ones told (`Label.beq_of_compare_eq`).

Row by row is what lets an index of corners bound a search: a cell of a
rectangle is not before its first corner and not after its last one
(`CellRange.between_of_contains`). For the corners to bound anything they must
be without anchors, as those of a spanned range are.
-/

namespace Worksheet

theorem isLE_or_isLE {α : Type} {cmp : α → α → Ordering} [Std.OrientedCmp cmp]
    (a b : α) : ((cmp a b).isLE || (cmp b a).isLE) = true := by
  have hswap : cmp a b = (cmp b a).swap := Std.OrientedCmp.eq_swap
  rw [hswap]
  cases cmp b a <;> rfl

/-- Where things are in order and no two compare equal, they are in strict
order. -/
theorem pairwise_lt_of_isLE {α : Type} {cmp : α → α → Ordering} {list : List α}
    (hle : list.Pairwise fun a b => (cmp a b).isLE = true)
    (hne : list.Pairwise fun a b => cmp a b ≠ .eq) :
    list.Pairwise fun a b => cmp a b = .lt :=
  (hle.and hne).imp fun ⟨hab, hdifferent⟩ =>
    (Ordering.isLE_iff_eq_lt_or_eq_eq.1 hab).resolve_right hdifferent

theorem Anchor.rank_injective {a b : Anchor} (h : a.rank = b.rank) : a = b := by
  cases a <;> cases b <;> first | rfl | cases h

namespace Cell

/-- The comparison of cells as a chain of comparisons of numbers, which library
instances speak of. -/
theorem compare_eq_compareLex :
    Cell.compare =
      compareLex (compareOn fun cell : Cell => cell.row.index)
        (compareLex (compareOn fun cell : Cell => cell.column.index)
          (compareLex (compareOn fun cell : Cell => cell.row.anchor.rank)
            (compareOn fun cell : Cell => cell.column.anchor.rank))) := rfl

instance : Std.TransCmp Cell.compare := by
  rw [compare_eq_compareLex]
  infer_instance

theorem eq_of_compare_eq {a b : Cell} (h : a.compare b = .eq) : a = b := by
  simp only [Cell.compare, Ordering.then_eq_eq, Nat.compare_eq_eq] at h
  obtain ⟨hrow, hcolumn, hrowAnchor, hcolumnAnchor⟩ := h
  obtain ⟨⟨column, columnAnchor⟩, ⟨row, rowAnchor⟩⟩ := a
  obtain ⟨⟨column', columnAnchor'⟩, ⟨row', rowAnchor'⟩⟩ := b
  cases hrow
  cases hcolumn
  cases Anchor.rank_injective hrowAnchor
  cases Anchor.rank_injective hcolumnAnchor
  rfl

instance : Std.LawfulEqCmp Cell.compare where
  eq_of_compare := eq_of_compare_eq

theorem ne_of_compare_lt {a b : Cell} (h : a.compare b = .lt) : a ≠ b := by
  rintro rfl
  have hself : a.compare a = .eq := Std.ReflCmp.compare_self
  rw [hself] at h
  cases h

/-- A cell without anchors is its own relative. -/
def IsRelative (cell : Cell) : Prop :=
  cell.toRelative = cell

instance (cell : Cell) : Decidable cell.IsRelative :=
  inferInstanceAs (Decidable (_ = _))

@[simp] theorem isRelative_toRelative (cell : Cell) : cell.toRelative.IsRelative := rfl

/-- **Between cells without anchors the order is by row, then by column.** -/
theorem isLE_compare_iff {a b : Cell} (ha : a.IsRelative) (hb : b.IsRelative) :
    (a.compare b).isLE = true ↔
      a.row.index < b.row.index ∨
        (a.row.index = b.row.index ∧ a.column.index ≤ b.column.index) := by
  rw [← ha, ← hb]
  simp only [Cell.compare, toRelative, Ordering.isLE_then_iff_and, Nat.isLE_compare,
    Nat.compare_eq_lt]
  simp
  omega

end Cell

namespace CellRange

/-- The comparison of ranges as a chain of comparisons of corners. -/
theorem compare_eq_compareLex :
    CellRange.compare =
      compareLex (fun a b => a.first.compare b.first)
        (fun a b => a.last.compare b.last) := rfl

instance : Std.TransCmp CellRange.compare := by
  have hfirst : Std.TransCmp fun a b : CellRange => a.first.compare b.first :=
    { eq_swap := Std.OrientedCmp.eq_swap
      isLE_trans := Std.TransCmp.isLE_trans }
  have hlast : Std.TransCmp fun a b : CellRange => a.last.compare b.last :=
    { eq_swap := Std.OrientedCmp.eq_swap
      isLE_trans := Std.TransCmp.isLE_trans }
  rw [compare_eq_compareLex]
  infer_instance

instance : Std.LawfulEqCmp CellRange.compare where
  eq_of_compare {a b} h := by
    simp only [CellRange.compare, Ordering.then_eq_eq] at h
    obtain ⟨first, last⟩ := a
    obtain ⟨first', last'⟩ := b
    cases Cell.eq_of_compare_eq h.1
    cases Cell.eq_of_compare_eq h.2
    rfl

/-- A range whose corners have no anchors. -/
def IsRelative (range : CellRange) : Prop :=
  range.first.IsRelative ∧ range.last.IsRelative

instance (range : CellRange) : Decidable range.IsRelative :=
  inferInstanceAs (Decidable (_ ∧ _))

/-- What contains a cell holds it between its corners, row by row. With anchors
on the corners this could fail, since cells that differ in their anchors only
are in order too. -/
theorem between_of_contains {range : CellRange} {cell : Cell}
    (hrange : range.IsRelative) (h : range.contains cell = true) :
    (range.first.compare cell.toRelative).isLE = true ∧
      (cell.toRelative.compare range.last).isLE = true := by
  simp only [contains, Bool.and_eq_true, decide_eq_true_eq] at h
  obtain ⟨⟨⟨hleft, hright⟩, htop⟩, hbottom⟩ := h
  have hcell := Cell.isRelative_toRelative cell
  refine ⟨(Cell.isLE_compare_iff hrange.1 hcell).2 ?_,
    (Cell.isLE_compare_iff hcell hrange.2).2 ?_⟩
  · rcases Nat.lt_or_eq_of_le htop with hlt | heq
    · exact Or.inl hlt
    · exact Or.inr ⟨heq, hleft⟩
  · rcases Nat.lt_or_eq_of_le hbottom with hlt | heq
    · exact Or.inl hlt
    · exact Or.inr ⟨heq, hright⟩

end CellRange

namespace Label

theorem compare_eq_compareOn : Label.compare = compareOn Label.fold := rfl

instance : Std.TransCmp Label.compare := by
  rw [compare_eq_compareOn]
  infer_instance

/-- Labels compare equal only when they are the same but for their case. -/
theorem beq_of_compare_eq {a b : Label} (h : a.compare b = .eq) : (a == b) = true :=
  beq_iff.2 (Std.LawfulEqCmp.eq_of_compare h)

end Label

end Worksheet
