import Worksheet.Proofs.Store.CornerIndex
import Worksheet.Proofs.Store.Receipts
import Worksheet.Proofs.Store.Values

/-!
# The ledger of a store

What a store of ranges does, without its indices. A `Ledger` is a list of rows,
a range and its values each, in the order in which the ranges last got their
first values, and the record of every receipt of a value by a range. A value
comes to the end of its row, or with a row of its own to the end of the list; it
goes out of its row, and the row goes with its last value. Replacing a value
puts the new one in its place, or just takes the old one out when the new one is
there already; only the first is a receipt.

A ledger is what the indices of a store are compared with, so it is made of
plain lists: each of its operations is a `List.map` or a `List.filter` of the
rows, with the change of the values said by an operation on lists. The index
sets the values of a range (`CornerIndex.setValues`), and the last section shows
that the two ways of changing rows are the same for sound rows
(`changeRow_eq_setValues`, `filter_ne_eq_setValues`).
-/

namespace Worksheet

variable {V : Type} [BEq V]

/-! ## Rows

Rows stand in the order in which their ranges last got their first value. A
range that loses all its values and gets one again comes at the end. -/

/-- **Sound rows**: a range has one row, and a row has values, all of them
different. It is the invariant of a `Ledger`, without which a row could not be
found by its range. -/
structure SoundRows (rows : List (RangeEntry V)) : Prop where
  /-- No range has two rows. -/
  nodup : (rows.map RangeEntry.range).Nodup
  /-- Every row has values. -/
  ne_nil : ∀ row ∈ rows, row.values ≠ []
  /-- The values of a row are different. -/
  distinct : ∀ row ∈ rows, Distinct row.values

omit [BEq V] in
theorem CornerIndex.mem_setValues {range : CellRange} {values : List V}
    {rows : List (RangeEntry V)} {row : RangeEntry V}
    (h : row ∈ setValues range values rows) :
    row ∈ rows ∨ (row = ⟨range, values⟩ ∧ values ≠ []) := by
  induction rows with
  | nil =>
    cases values with
    | nil => cases h
    | cons => exact Or.inr ⟨List.mem_singleton.1 h, List.cons_ne_nil _ _⟩
  | cons head rows ih =>
    unfold setValues at h
    cases hhead : head.range == range <;> cases values <;>
      simp only [hhead, List.isEmpty_nil, List.isEmpty_cons, if_true,
        Bool.false_eq_true, if_false, List.mem_cons] at h ⊢ <;> grind

namespace SoundRows

variable {rows : List (RangeEntry V)}

theorem nil : SoundRows ([] : List (RangeEntry V)) where
  nodup := List.nodup_nil
  ne_nil := fun _ h => absurd h List.not_mem_nil
  distinct := fun _ h => absurd h List.not_mem_nil

/-- Rows stay sound when a range gets other values, if these are different. No
values is no exception: the row is then dropped. -/
theorem setValues (h : SoundRows rows) (range : CellRange) {values : List V}
    (hvalues : Distinct values) : SoundRows (CornerIndex.setValues range values rows) where
  nodup := by
    obtain ⟨hnodup, -, -⟩ := h
    induction rows with
    | nil => cases values <;> simp [CornerIndex.setValues]
    | cons head rows ih =>
      obtain ⟨hhead, hrows⟩ := List.nodup_cons.1 hnodup
      unfold CornerIndex.setValues
      by_cases hrange : head.range = range
      · subst hrange
        cases values with
        | nil => simpa using hrows
        | cons => simpa using hnodup
      · rw [if_neg (by simpa using hrange)]
        -- the head is of another range than the row that is set
        refine List.nodup_cons.2 ⟨fun hmem => ?_, ih hrows⟩
        obtain ⟨row, hrow, heq⟩ := List.mem_map.1 hmem
        rcases CornerIndex.mem_setValues hrow with hrow | ⟨rfl, -⟩
        · exact hhead (heq ▸ List.mem_map_of_mem hrow)
        · exact hrange heq.symm
  ne_nil := fun row hrow => by
    rcases CornerIndex.mem_setValues hrow with hrow | ⟨rfl, hne⟩
    · exact h.ne_nil row hrow
    · exact hne
  distinct := fun row hrow => by
    rcases CornerIndex.mem_setValues hrow with hrow | ⟨rfl, -⟩
    · exact h.distinct row hrow
    · exact hvalues

end SoundRows

omit [BEq V] in
theorem rowValues_of_absent {rows : List (RangeEntry V)} {range : CellRange}
    (h : range ∉ rows.map RangeEntry.range) : rowValues rows range = [] := by
  induction rows with
  | nil => rfl
  | cons head rows ih =>
    rw [List.map_cons, List.mem_cons, not_or] at h
    rw [rowValues_cons, if_neg (Ne.symm h.1), ih h.2]

omit [BEq V] in
theorem rowValues_of_mem {rows : List (RangeEntry V)}
    (hrows : (rows.map RangeEntry.range).Nodup) {row : RangeEntry V} (h : row ∈ rows) :
    rowValues rows row.range = row.values := by
  induction rows with
  | nil => cases h
  | cons head rows ih =>
    obtain ⟨hhead, hrest⟩ := List.nodup_cons.1 hrows
    rw [rowValues_cons]
    rcases List.mem_cons.1 h with rfl | h
    · rw [if_pos rfl]
    · have hne : head.range ≠ row.range := fun heq => hhead (heq ▸ List.mem_map_of_mem h)
      rw [if_neg hne, ih hrest h]

theorem SoundRows.distinct_rowValues {rows : List (RangeEntry V)}
    (h : SoundRows rows) (range : CellRange) : Distinct (rowValues rows range) := by
  by_cases hrange : range ∈ rows.map RangeEntry.range
  · obtain ⟨row, hrow, rfl⟩ := List.mem_map.1 hrange
    rw [rowValues_of_mem h.nodup hrow]
    exact h.distinct row hrow
  · rw [rowValues_of_absent hrange]
    exact Distinct.nil

/-- **A range has a row exactly when it has values**, so what is stored can be
said in either way. -/
theorem SoundRows.mem_iff {rows : List (RangeEntry V)} (h : SoundRows rows)
    {range : CellRange} :
    range ∈ rows.map RangeEntry.range ↔ rowValues rows range ≠ [] := by
  constructor
  · intro hrange
    obtain ⟨row, hrow, rfl⟩ := List.mem_map.1 hrange
    rw [rowValues_of_mem h.nodup hrow]
    exact h.ne_nil row hrow
  · intro hne
    by_contra hrange
    exact hne (rowValues_of_absent hrange)

/-! ## The ledger

The operations are those of a store, said of rows. None of them mentions an
index, and each changes the row of one range only. -/

/-- Rows of values, and the record of all receipts. -/
structure Ledger (V : Type) where
  /-- The ranges that hold values, in the order in which they last got their
  first ones, and the values of each in the order of the row. -/
  rows : List (RangeEntry V)
  /-- Every receipt of a value by a range so far, the earliest first. -/
  received : List (CellRange × V)

/-- The rows with the values of a range changed. A row without values is
dropped. -/
def changeRow (range : CellRange) (f : List V → List V)
    (rows : List (RangeEntry V)) : List (RangeEntry V) :=
  (rows.map fun row => if row.range = range then ⟨range, f row.values⟩ else row).filter
    fun row => !row.values.isEmpty

namespace Ledger

def empty : Ledger V :=
  ⟨[], []⟩

def valuesOf (ledger : Ledger V) (range : CellRange) : List V :=
  rowValues ledger.rows range

def holds (ledger : Ledger V) (range : CellRange) (value : V) : Bool :=
  (ledger.valuesOf range).contains value

/-- The ranges that hold a value, in the order in which they last received it:
read off the record of receipts, as far as what was received is still held. The
store has `Holders` for this. -/
def rangesWith (ledger : Ledger V) (value : V) : List CellRange :=
  receivers ledger.received ledger.holds value

/-- A new value comes to the end of the row of its range, or makes a row of its
own at the end. A value that is there already changes nothing, and is no
receipt. -/
def add (ledger : Ledger V) (range : CellRange) (value : V) : Bool × Ledger V :=
  if ledger.holds range value then (false, ledger)
  else
    (true,
      { rows :=
          if ledger.rows.any fun row => row.range = range then
            changeRow range (fun values => values ++ [value]) ledger.rows
          else ledger.rows ++ [⟨range, [value]⟩]
        received := ledger.received ++ [(range, value)] })

/-- A value goes out of the row of its range. The record of receipts is left as
it is. -/
def remove (ledger : Ledger V) (range : CellRange) (value : V) : Bool × Ledger V :=
  if ledger.holds range value then
    (true,
      { ledger with
        rows := changeRow range (fun values => values.erase value) ledger.rows })
  else (false, ledger)

/-- A value comes in the place of another. When it is there already the other
just goes, and nothing is received. A value is not replaced by an equal one. -/
def replace (ledger : Ledger V) (range : CellRange) (new old : V) : Bool × Ledger V :=
  if (new != old) && ledger.holds range old then
    if ledger.holds range new then
      (true,
        { ledger with
          rows := changeRow range (fun values => values.erase old) ledger.rows })
    else
      (true,
        { rows := changeRow range (fun values => values.replace old new) ledger.rows
          received := ledger.received ++ [(range, new)] })
  else (false, ledger)

/-- The row of a range is dropped, and its values are the answer. -/
def delete (ledger : Ledger V) (range : CellRange) : List V × Ledger V :=
  (ledger.valuesOf range,
    { ledger with rows := ledger.rows.filter fun row => row.range ≠ range })

end Ledger

/-! ## Changes of rows as changes of values

A ledger changes a row in its place, and an index sets the values of a range.
On sound rows the two come to the same list, also where a row is dropped or
made. -/

open CornerIndex (setValues)

omit [BEq V]

theorem setValues_of_absent {rows : List (RangeEntry V)} {range : CellRange}
    (h : range ∉ rows.map RangeEntry.range) {values : List V} (hne : values ≠ []) :
    setValues range values rows = rows ++ [⟨range, values⟩] := by
  induction rows with
  | nil =>
    rw [setValues, if_neg (by simpa using hne)]
    rfl
  | cons head rows ih =>
    rw [List.map_cons, List.mem_cons, not_or] at h
    rw [setValues, if_neg (by simpa using Ne.symm h.1), ih h.2]
    rfl

theorem changeRow_of_absent {rows : List (RangeEntry V)}
    (hne : ∀ row ∈ rows, row.values ≠ []) {range : CellRange}
    (h : range ∉ rows.map RangeEntry.range) (f : List V → List V) :
    changeRow range f rows = rows := by
  have hmap : ∀ row ∈ rows,
      (if row.range = range then ⟨range, f row.values⟩ else row) = row := by
    intro row hrow
    rw [if_neg]
    rintro rfl
    exact h (List.mem_map_of_mem hrow)
  rw [changeRow, List.map_congr_left hmap, List.map_id', List.filter_eq_self]
  exact fun row hrow => by simpa using hne row hrow

/-- **Changing the row of a range is changing its values**, when the range has
one row and every row has values. So the ledger's `changeRow` and the store's
`setValues` can be compared. -/
theorem changeRow_eq_setValues {rows : List (RangeEntry V)}
    (hrows : (rows.map RangeEntry.range).Nodup) (hne : ∀ row ∈ rows, row.values ≠ [])
    {range : CellRange} (h : range ∈ rows.map RangeEntry.range) (f : List V → List V) :
    changeRow range f rows = setValues range (f (rowValues rows range)) rows := by
  induction rows with
  | nil => cases h
  | cons head rows ih =>
    obtain ⟨hhead, hrest⟩ := List.nodup_cons.1 hrows
    have hne' : ∀ row ∈ rows, row.values ≠ [] :=
      fun row hrow => hne row (List.mem_cons_of_mem _ hrow)
    by_cases hrange : head.range = range
    · subst hrange
      have htail := changeRow_of_absent hne' hhead f
      rw [changeRow] at htail
      rw [changeRow, List.map_cons, if_pos rfl, List.filter_cons, htail, setValues,
        rowValues_cons, if_pos rfl]
      cases f head.values <;> simp
    · have hmem : range ∈ rows.map RangeEntry.range :=
        (List.mem_cons.1 h).resolve_left (Ne.symm hrange)
      have htail := ih hrest hne' hmem
      rw [changeRow] at htail
      rw [changeRow, List.map_cons, if_neg hrange, List.filter_cons_of_pos, htail,
        setValues, if_neg (by simpa using hrange), rowValues_cons, if_neg hrange]
      simpa using hne head List.mem_cons_self

/-- Dropping the row of a range is leaving it without values. -/
theorem filter_ne_eq_setValues {rows : List (RangeEntry V)}
    (hrows : (rows.map RangeEntry.range).Nodup) (range : CellRange) :
    (rows.filter fun row => row.range ≠ range) = setValues range [] rows := by
  induction rows with
  | nil => rfl
  | cons head rows ih =>
    obtain ⟨hhead, hrest⟩ := List.nodup_cons.1 hrows
    by_cases hrange : head.range = range
    · subst hrange
      rw [List.filter_cons_of_neg (by simp), setValues, if_pos (by simp),
        List.isEmpty_nil, if_pos rfl, List.filter_eq_self]
      intro row hrow
      rw [decide_eq_true_eq]
      exact fun heq => hhead (heq ▸ List.mem_map_of_mem hrow)
    · rw [List.filter_cons_of_pos (by simpa using hrange), setValues,
        if_neg (by simpa using hrange), ih hrest]

end Worksheet
