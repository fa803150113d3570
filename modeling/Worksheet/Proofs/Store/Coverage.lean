import Worksheet.Proofs.Reference.Order
import Worksheet.Proofs.Store.Chains

/-!
# Which labels stand for a cell

A label stands for a cell when its chain comes to that cell or to a range around
it; what the anchors are, of the cell asked for or of the targets, does not
matter (`Selection.Covers`). The labels of a store that do are listed in strict
order, each in the spelling in which it was first defined since it was last
deleted, and no others are (`LabelStore.run_labelsAt`).
-/

namespace Worksheet

/-- **A selection covers a cell**: it is a cell at the same place, or a range
with corners around it. Whole columns and rows are not asked, nor is a label,
whose chain is followed first. -/
def Selection.Covers (cell : Cell) : Selection → Prop
  | .cell target =>
    target.column.index = cell.column.index ∧ target.row.index = cell.row.index
  | .range target =>
    (target.first.column.index ≤ cell.column.index
        ∧ cell.column.index ≤ target.last.column.index)
      ∧ target.first.row.index ≤ cell.row.index ∧ cell.row.index ≤ target.last.row.index
  | .column _ | .row _ | .label _ => False

theorem CellRange.contains_single_iff (target cell : Cell) :
    (CellRange.single target).contains cell = true
      ↔ target.column.index = cell.column.index ∧ target.row.index = cell.row.index := by
  simp only [single, spanning, Nat.le_refl, if_true, contains, Cell.toRelative, Bool.and_eq_true,
    decide_eq_true_eq]
  omega

/-- A selection covers the cells of its range, if it has one. This is the test
that a store makes. -/
theorem Selection.any_contains_iff (target : Selection) (cell : Cell) :
    (target.toRange?.any fun range => range.contains cell) = true ↔ target.Covers cell := by
  cases target with
  | cell target => exact CellRange.contains_single_iff target cell
  | range target =>
    simp only [toRange?, Option.any_some, CellRange.contains, Bool.and_eq_true,
      decide_eq_true_eq, Covers, and_assoc]
  | column _ | row _ | label _ => simp [toRange?, Covers]

theorem Selection.Covers.ne_label {target : Selection} {cell : Cell} (h : target.Covers cell)
    (next : Label) : target ≠ .label next := by
  rintro rfl
  exact h

namespace LabelStore

open Label

variable (operations : List LabelOperation) (cell : Cell)

/-- **The labels at a cell**, among those that operations have defined: which
they are, in which spelling and in which order. -/
structure LabelsAt (labels : List Label) : Prop where
  /-- Every label comes before the next one. -/
  sorted : labels.Pairwise fun a b => a.compare b = .lt
  /-- They are the defined labels, in their first spelling, whose chain comes to
  what covers the cell. -/
  mem_iff : ∀ label, label ∈ labels ↔ spelling? operations label = some label
    ∧ ∃ last target, Leads (definition? operations) label last
      ∧ definition? operations last = some target ∧ target.Covers cell
  /-- Their chains come to nothing else: not to a column or a row, not to a
  label that is not defined, and not round in a circle. -/
  covers_of_chainEnd : ∀ label ∈ labels, ∀ answer,
    ChainEnd (definition? operations) label answer →
      ∃ target, answer = .ok target ∧ target.Covers cell

/-- **A label is found at a cell when its chain comes to what covers it.** A
chain that ends in an error covers nothing, and a label at its end is no
selection that covers a cell. -/
theorem covers_run_iff (label : Label) :
    (LabelStore.empty.run operations).covers cell label = true
      ↔ ∃ last target, Leads (definition? operations) label last
        ∧ definition? operations last = some target ∧ target.Covers cell := by
  have hend := chainEnd_resolve operations label
  unfold covers
  constructor
  · intro hcovers
    cases hanswer : (LabelStore.empty.run operations).resolve label with
    | error _ =>
      rw [hanswer] at hcovers
      cases hcovers
    | ok target =>
      rw [hanswer] at hcovers hend
      obtain ⟨last, hleads, hlast⟩ : ∃ last, Leads (definition? operations) label last
          ∧ definition? operations last = some target := by
        cases hend with
        | target hleads hlast _ => exact ⟨_, hleads, hlast⟩
      exact ⟨last, target, hleads, hlast, (target.any_contains_iff cell).1 hcovers⟩
  · rintro ⟨last, target, hleads, hlast, hcovers⟩
    rw [hend.unique (.target hleads hlast hcovers.ne_label)]
    exact (target.any_contains_iff cell).2 hcovers

/-- **After any operations, the labels at a cell are listed** as `LabelsAt`
says. The list is a filter of the labels of the store, sorted; no two of them
are equal, so the order is strict. -/
theorem run_labelsAt :
    LabelsAt operations cell ((LabelStore.empty.run operations).labelsFor cell) := by
  have hrecords := records_run operations
  have hmem : ∀ label, label ∈ (LabelStore.empty.run operations).labelsFor cell
      ↔ spelling? operations label = some label
        ∧ ∃ last target, Leads (definition? operations) label last
          ∧ definition? operations last = some target ∧ target.Covers cell := fun label => by
    rw [labelsFor, List.mem_mergeSort, List.mem_filter, hrecords.mem_labels_iff, covers_run_iff]
  refine ⟨pairwise_lt_of_isLE ?_ ?_, hmem, fun label hlabel answer hanswer => ?_⟩
  · exact List.pairwise_mergeSort (fun _ _ _ => Std.TransCmp.isLE_trans)
      (fun _ _ => isLE_or_isLE _ _) _
  · have hdistinct : ((LabelStore.empty.run operations).entries.map Prod.fst).Pairwise
        fun a b => (a == b) = false := List.pairwise_map.2 hrecords.distinct
    have hlisted : ((LabelStore.empty.run operations).labelsFor cell).Pairwise
        fun a b => (a == b) = false :=
      (List.mergeSort_perm _ _).symm.pairwise (hdistinct.filter _)
        fun {a b} hab => by rw [BEq.comm, hab]
    exact hlisted.imp fun hne hcompare => by rw [beq_of_compare_eq hcompare] at hne; cases hne
  · obtain ⟨-, last, target, hleads, hlast, hcovers⟩ := (hmem label).1 hlabel
    exact ⟨target, hanswer.unique (.target hleads hlast hcovers.ne_label), hcovers⟩

end LabelStore

end Worksheet
