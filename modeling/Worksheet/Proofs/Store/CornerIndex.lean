import Mathlib.Data.List.Basic
import Worksheet.Proofs.Reference.Order
import Worksheet.Store.CornerIndex

/-!
# A corner index is a list of rows in the order of their corners

An index holds its ranges corner by corner. What it stands for is a plain list
of rows, a range and its values each, in the order in which they came:
`CornerIndex.Files` says that the corners are in strict order, that none is
empty, and that under each stand exactly the rows with that corner, in the order
of the list. The two corner indices of a store file the *same* rows, one by
first and one by last corners.

Everything an index does is then said of the rows. Looking a range up finds its
row (`CornerIndex.Files.valuesOf_eq`), changing its values changes the row
(`CornerIndex.Files.update`), and going through the index gives the rows sorted
by their corners, rows with one corner in the order in which they came
(`CornerIndex.Files.entries_eq`).
-/

namespace Worksheet

variable {V : Type}

/-! ## Rows

A list of rows knows nothing of corners. What is done to the entries under one
corner is the same as what would be done to the whole list, which is why an
index may be compared with it (`filter_setValues`). -/

/-- The values of a range in a list of rows; none when it has no row. -/
def rowValues (rows : List (RangeEntry V)) (range : CellRange) : List V :=
  ((rows.find? fun row => row.range == range).map RangeEntry.values).getD []

theorem rowValues_cons (row : RangeEntry V) (rows : List (RangeEntry V))
    (range : CellRange) :
    rowValues (row :: rows) range
      = if row.range = range then row.values else rowValues rows range := by
  unfold rowValues
  by_cases h : row.range = range <;> simp [h]

namespace CornerIndex

/-- Setting the values of a range leaves the rows of other corners alone, and
among the rows of its own corner does the same as among all. So an index may
change the entries of one corner only. -/
theorem filter_setValues (p : CellRange → Bool) (range : CellRange)
    (values : List V) (rows : List (RangeEntry V)) :
    (setValues range values rows).filter (fun row => p row.range)
      = if p range then setValues range values (rows.filter fun row => p row.range)
        else rows.filter fun row => p row.range := by
  induction rows with
  | nil => cases values <;> cases hp : p range <;> simp [setValues, hp]
  | cons row rows ih =>
    by_cases hrange : row.range = range
    · subst hrange
      cases values <;> cases hp : p row.range <;> simp [setValues, hp]
    · cases hrow : p row.range <;> cases hp : p range <;>
        simp_all [setValues]

/-- Looking up after a change: the range has its new values, every other the old
ones. With two rows for a range this would fail when its new values are none. -/
theorem rowValues_setValues {rows : List (RangeEntry V)}
    (hrows : (rows.map RangeEntry.range).Nodup) (range other : CellRange)
    (values : List V) :
    rowValues (setValues range values rows) other
      = if range = other then values else rowValues rows other := by
  induction rows with
  | nil =>
    cases values <;> by_cases h : range = other <;>
      simp [setValues, rowValues, h]
  | cons row rows ih =>
    obtain ⟨hrow, hrows⟩ := List.nodup_cons.1 hrows
    by_cases hrange : row.range = range
    · subst hrange
      have habsent : rowValues rows row.range = [] := by
        have : rows.find? (fun entry => entry.range == row.range) = none := by
          refine List.find?_eq_none.2 fun entry hentry => ?_
          rw [beq_iff_eq]
          exact fun heq => hrow (heq ▸ List.mem_map_of_mem hentry)
        rw [rowValues, this]
        rfl
      by_cases h : row.range = other
      · subst h
        cases values <;> simp [setValues, rowValues_cons, habsent]
      · cases values <;> simp [setValues, rowValues_cons, h]
    · have hrange' : ¬range = row.range := fun h => hrange h.symm
      by_cases hrow' : row.range = other
      · subst hrow'
        simp [setValues, hrange, hrange', rowValues_cons]
      · simp [setValues, hrange, rowValues_cons, hrow', ih hrows]

/-! ## Corners

The corners are kept in strict order, so the search may stop at the first one
that is greater. Without the order a new corner could be put behind an old one
that is equal to it. -/

theorem entriesAt_cons (head : Cell × List (RangeEntry V))
    (corners : List (Cell × List (RangeEntry V))) (place : Cell) :
    entriesAt ⟨head :: corners⟩ place
      = if head.1 = place then head.2 else entriesAt ⟨corners⟩ place := by
  unfold entriesAt
  by_cases h : head.1 = place <;> simp [h]

theorem entriesAt_eq_nil {corners : List (Cell × List (RangeEntry V))}
    {place : Cell} (h : ∀ entry ∈ corners, entry.1 ≠ place) :
    entriesAt ⟨corners⟩ place = [] := by
  have : corners.find? (fun entry => entry.1 == place) = none :=
    List.find?_eq_none.2 fun entry hentry => by simpa using h entry hentry
  rw [entriesAt, this]
  rfl

theorem mem_setEntries {corner : Cell} {entries : List (RangeEntry V)}
    {corners : List (Cell × List (RangeEntry V))}
    {entry : Cell × List (RangeEntry V)}
    (h : entry ∈ setEntries corner entries corners) :
    entry ∈ corners ∨ (entry = (corner, entries) ∧ entries ≠ []) := by
  induction corners with
  | nil =>
    cases entries with
    | nil => simp [setEntries] at h
    | cons => simp_all [setEntries]
  | cons head corners ih =>
    unfold setEntries at h
    cases entries <;> cases hcompare : corner.compare head.1 <;>
      simp only [hcompare, List.isEmpty_nil, List.isEmpty_cons, if_true,
        Bool.false_eq_true, if_false, List.mem_cons] at h ⊢ <;> grind

/-- Changing the entries under one corner keeps the corners in order: a new
corner is put before the first one that is greater. -/
theorem sorted_setEntries {corner : Cell} {entries : List (RangeEntry V)}
    {corners : List (Cell × List (RangeEntry V))}
    (h : corners.Pairwise fun a b => a.1.compare b.1 = .lt) :
    (setEntries corner entries corners).Pairwise
      fun a b => a.1.compare b.1 = .lt := by
  induction corners with
  | nil => cases entries <;> simp [setEntries]
  | cons head corners ih =>
    obtain ⟨hhead, hcorners⟩ := List.pairwise_cons.1 h
    unfold setEntries
    cases hcompare : corner.compare head.1 with
    | lt =>
      cases entries with
      | nil => simpa using h
      | cons =>
        refine List.pairwise_cons.2 ⟨fun entry hentry => ?_, h⟩
        rcases List.mem_cons.1 hentry with rfl | hentry
        · exact hcompare
        · exact Std.TransCmp.lt_trans hcompare (hhead entry hentry)
    | eq =>
      cases Cell.eq_of_compare_eq hcompare
      cases entries with
      | nil => simpa using hcorners
      | cons => exact List.pairwise_cons.2 ⟨hhead, hcorners⟩
    | gt =>
      refine List.pairwise_cons.2 ⟨fun entry hentry => ?_, ih hcorners⟩
      rcases mem_setEntries hentry with hentry | ⟨rfl, -⟩
      · exact hhead entry hentry
      · exact Std.OrientedCmp.gt_iff_lt.1 hcompare

/-- **Under the changed corner stand the new entries, under every other the old
ones.** The corners are in strict order, so the place at which `setEntries`
stops is the only one where the corner can be. -/
theorem entriesAt_setEntries {corner : Cell} {entries : List (RangeEntry V)}
    {corners : List (Cell × List (RangeEntry V))}
    (h : corners.Pairwise fun a b => a.1.compare b.1 = .lt) (place : Cell) :
    entriesAt ⟨setEntries corner entries corners⟩ place
      = if corner = place then entries else entriesAt ⟨corners⟩ place := by
  induction corners with
  | nil =>
    by_cases hplace : corner = place <;> cases entries <;>
      simp [setEntries, entriesAt, hplace]
  | cons head corners ih =>
    obtain ⟨hhead, hcorners⟩ := List.pairwise_cons.1 h
    have hafter : ∀ entry ∈ corners, entry.1 ≠ head.1 := fun entry hentry =>
      (Cell.ne_of_compare_lt (hhead entry hentry)).symm
    unfold setEntries
    cases hcompare : corner.compare head.1 with
    | lt =>
      -- the new corner comes before all the others, so it is not among them
      have hbefore : ∀ entry ∈ head :: corners, entry.1 ≠ corner := by
        intro entry hentry
        rcases List.mem_cons.1 hentry with rfl | hentry
        · exact (Cell.ne_of_compare_lt hcompare).symm
        · exact (Cell.ne_of_compare_lt
            (Std.TransCmp.lt_trans hcompare (hhead entry hentry))).symm
      by_cases hplace : corner = place
      · subst hplace
        cases entries with
        | nil => simpa using entriesAt_eq_nil hbefore
        | cons => simp [entriesAt_cons]
      · cases entries <;> simp [entriesAt_cons, hplace]
    | eq =>
      cases Cell.eq_of_compare_eq hcompare
      by_cases hplace : head.1 = place
      · subst hplace
        cases entries with
        | nil => simpa using entriesAt_eq_nil hafter
        | cons => simp [entriesAt_cons]
      · cases entries <;> simp [entriesAt_cons, hplace]
    | gt =>
      have hne : head.1 ≠ corner :=
        Cell.ne_of_compare_lt (Std.OrientedCmp.gt_iff_lt.1 hcompare)
      by_cases hplace : head.1 = place
      · subst hplace
        simp [entriesAt_cons, hne.symm]
      · simp [entriesAt_cons, hplace, ih hcorners]

/-! ## What an index files

`Files` is the abstraction function of an index, as a relation: every list of
rows that it files has the same rows under each corner. A list is chosen once
and kept beside the index. -/

/-- **An index files rows under a corner**: its corners are in strict order,
none is empty, and under each stand the rows with that corner, in the order of
the list. This determines the index from its rows, and what follows is said of
the rows alone. -/
structure Files (corner : CellRange → Cell) (index : CornerIndex V)
    (rows : List (RangeEntry V)) : Prop where
  /-- Every corner comes before the next one. -/
  sorted : index.corners.Pairwise fun a b => a.1.compare b.1 = .lt
  /-- Every corner has ranges. -/
  ne_nil : ∀ entry ∈ index.corners, entry.2 ≠ []
  /-- Under a corner stand the rows that have it. -/
  entriesAt_eq : ∀ place, index.entriesAt place
    = rows.filter fun row => corner row.range == place

namespace Files

variable {corner : CellRange → Cell} {index : CornerIndex V}
  {rows : List (RangeEntry V)}

theorem empty (corner : CellRange → Cell) :
    Files corner (CornerIndex.empty : CornerIndex V) [] where
  sorted := List.Pairwise.nil
  ne_nil := fun _ h => absurd h List.not_mem_nil
  entriesAt_eq := fun _ => rfl

/-- **A range is found in its row**, though only the rows of its corner are
searched. -/
theorem valuesOf_eq (h : Files corner index rows) (range : CellRange) :
    index.valuesOf (corner range) range = rowValues rows range := by
  have hfind : (rows.filter fun row => corner row.range == corner range).find?
      (fun row => row.range == range) = rows.find? fun row => row.range == range := by
    rw [List.find?_filter]
    refine congrArg (fun p => rows.find? p) (funext fun row => ?_)
    by_cases hrange : row.range = range
    · simp [hrange]
    · simp [hrange]
  rw [valuesOf, h.entriesAt_eq, hfind, rowValues]

/-- **Changing the values of a range changes its row**, and the index goes on
filing the rows. Both corner indices of a store are updated by this, each with a
corner of its own. -/
theorem update (h : Files corner index rows) (range : CellRange)
    (values : List V) :
    Files corner (index.update (corner range) range values)
      (setValues range values rows) where
  sorted := sorted_setEntries h.sorted
  ne_nil := fun entry hentry => by
    rcases mem_setEntries hentry with hentry | ⟨rfl, hne⟩
    · exact h.ne_nil entry hentry
    · exact hne
  entriesAt_eq := fun place => by
    rw [filter_setValues (fun range => corner range == place)]
    refine (entriesAt_setEntries h.sorted place).trans ?_
    by_cases hplace : corner range = place
    · simp [hplace, h.entriesAt_eq]
    · simpa [hplace] using h.entriesAt_eq place

/-- **After a change the range has its new values, every other the old ones.** -/
theorem valuesOf_update (h : Files corner index rows)
    (hrows : (rows.map RangeEntry.range).Nodup) (range : CellRange) (values : List V)
    (other : CellRange) :
    (index.update (corner range) range values).valuesOf (corner other) other
      = if range = other then values else index.valuesOf (corner other) other := by
  rw [(h.update range values).valuesOf_eq, rowValues_setValues hrows, h.valuesOf_eq]

theorem entriesAt_of_mem (h : Files corner index rows)
    {entry : Cell × List (RangeEntry V)} (hentry : entry ∈ index.corners) :
    index.entriesAt entry.1 = entry.2 := by
  obtain ⟨corners⟩ := index
  have hsorted : corners.Pairwise fun a b => a.1.compare b.1 = .lt := h.sorted
  clear h
  induction corners with
  | nil => cases hentry
  | cons head corners ih =>
    obtain ⟨hhead, hcorners⟩ := List.pairwise_cons.1 hsorted
    rw [entriesAt_cons]
    rcases List.mem_cons.1 hentry with rfl | hentry
    · rw [if_pos rfl]
    · rw [if_neg (Cell.ne_of_compare_lt (hhead entry hentry)), ih hentry hcorners]

theorem corner_eq (h : Files corner index rows)
    {entry : Cell × List (RangeEntry V)} (hentry : entry ∈ index.corners)
    {row : RangeEntry V} (hrow : row ∈ entry.2) :
    row ∈ rows ∧ corner row.range = entry.1 := by
  rw [← h.entriesAt_of_mem hentry, h.entriesAt_eq, List.mem_filter] at hrow
  exact ⟨hrow.1, beq_iff_eq.1 hrow.2⟩

end Files

/-! ## Going through an index

The entries come sorted by their corner and stable within one. This determines
the order altogether (`eq_of_filter_eq`), so that it can be said without the
index. -/

theorem isLE_head {key : RangeEntry V → Cell} {head row : RangeEntry V}
    {rows : List (RangeEntry V)}
    (h : (head :: rows).Pairwise fun a b => ((key a).compare (key b)).isLE = true)
    (hrow : row ∈ head :: rows) : ((key head).compare (key row)).isLE = true := by
  rcases List.mem_cons.1 hrow with rfl | hrow
  · exact Std.ReflCmp.isLE_rfl
  · exact (List.pairwise_cons.1 h).1 row hrow

theorem pairwise_of_corner {corner : CellRange → Cell} {rows : List (RangeEntry V)}
    {place : Cell} (h : ∀ row ∈ rows, corner row.range = place) :
    rows.Pairwise fun a b => ((corner a.range).compare (corner b.range)).isLE = true := by
  refine List.pairwise_of_forall_mem_list fun a ha b hb => ?_
  rw [h a ha, h b hb]
  exact Std.ReflCmp.isLE_rfl

/-- **Sorted lists with the same rows under every corner are the same.** It is
how the order of an index is compared with a stable sort without following the
sorting algorithm: both keep the rows of each corner in their order
(`filter_sortRows`, `filter_entries`) and both are sorted. -/
theorem eq_of_filter_eq {key : RangeEntry V → Cell} {rows rows' : List (RangeEntry V)}
    (hrows : rows.Pairwise fun a b => ((key a).compare (key b)).isLE = true)
    (hrows' : rows'.Pairwise fun a b => ((key a).compare (key b)).isLE = true)
    (h : ∀ place, rows.filter (fun row => key row == place)
      = rows'.filter fun row => key row == place) :
    rows = rows' := by
  induction rows generalizing rows' with
  | nil =>
    cases rows' with
    | nil => rfl
    | cons row' rows' => simpa using h (key row')
  | cons row rows ih =>
    cases rows' with
    | nil => simpa using h (key row)
    | cons row' rows' =>
      -- each head is among the rows of the other list, so neither corner is after the other
      have hle : ((key row').compare (key row)).isLE = true := by
        have hmem : row ∈ (row' :: rows').filter fun entry => key entry == key row := by
          rw [← h]
          simp
        exact isLE_head hrows' (List.mem_filter.1 hmem).1
      have hle' : ((key row).compare (key row')).isLE = true := by
        have hmem : row' ∈ (row :: rows).filter fun entry => key entry == key row' := by
          rw [h]
          simp
        exact isLE_head hrows (List.mem_filter.1 hmem).1
      have hkey : key row = key row' :=
        Cell.eq_of_compare_eq (Std.OrientedCmp.isLE_antisymm hle' hle)
      obtain heq : row = row' := by
        have hheads := h (key row)
        simp only [List.filter_cons, beq_self_eq_true, if_true, ← hkey] at hheads
        exact (List.cons.inj hheads).1
      subst heq
      refine congrArg (row :: ·) (ih hrows.of_cons hrows'.of_cons fun place => ?_)
      have hplace := h place
      rw [List.filter_cons, List.filter_cons] at hplace
      split at hplace
      · exact (List.cons.inj hplace).2
      · exact hplace

/-- The rows in the order of their corners; those with one corner stay in the
order of the list. -/
def sortRows (corner : CellRange → Cell) (rows : List (RangeEntry V)) :
    List (RangeEntry V) :=
  rows.mergeSort fun a b => ((corner a.range).compare (corner b.range)).isLE

theorem sortRows_perm (corner : CellRange → Cell) (rows : List (RangeEntry V)) :
    (sortRows corner rows).Perm rows :=
  List.mergeSort_perm rows _

theorem pairwise_sortRows (corner : CellRange → Cell)
    (rows : List (RangeEntry V)) :
    (sortRows corner rows).Pairwise
      fun a b => ((corner a.range).compare (corner b.range)).isLE = true :=
  List.pairwise_mergeSort (fun _ _ _ => Std.TransCmp.isLE_trans)
    (fun _ _ => isLE_or_isLE _ _) rows

/-- Sorting keeps the rows with one corner, in their order: the sort is stable. -/
theorem filter_sortRows (corner : CellRange → Cell) (rows : List (RangeEntry V))
    (place : Cell) :
    (sortRows corner rows).filter (fun row => corner row.range == place)
      = rows.filter fun row => corner row.range == place := by
  have hone : (rows.filter fun row => corner row.range == place).Pairwise
      fun a b => ((corner a.range).compare (corner b.range)).isLE = true :=
    pairwise_of_corner fun row hrow => beq_iff_eq.1 (List.mem_filter.1 hrow).2
  have hsub : (rows.filter fun row => corner row.range == place).Sublist
      (sortRows corner rows) :=
    List.sublist_mergeSort (fun _ _ _ => Std.TransCmp.isLE_trans)
      (fun _ _ => isLE_or_isLE _ _) hone List.filter_sublist
  have hfilter := hsub.filter fun row => corner row.range == place
  rw [List.filter_filter] at hfilter
  simp only [Bool.and_self] at hfilter
  -- a sublist of the same length is the whole list
  refine (hfilter.eq_of_length ?_).symm
  exact ((sortRows_perm corner rows).filter _).length_eq.symm

namespace Files

variable {corner : CellRange → Cell} {index : CornerIndex V}
  {rows : List (RangeEntry V)}

/-- The entries of an index come in the order of their corners. -/
theorem pairwise_entries (h : Files corner index rows) :
    index.entries.Pairwise
      fun a b => ((corner a.range).compare (corner b.range)).isLE = true := by
  refine List.pairwise_flatMap.2 ⟨fun entry hentry => ?_, ?_⟩
  · exact pairwise_of_corner fun row hrow => (h.corner_eq hentry hrow).2
  · refine List.Pairwise.imp_of_mem (fun {a b} ha hb hlt => ?_) h.sorted
    intro row hrow row' hrow'
    rw [(h.corner_eq ha hrow).2, (h.corner_eq hb hrow').2, hlt]
    rfl

/-- The entries with one corner are those that stand under it. -/
theorem filter_entries (h : Files corner index rows) (place : Cell) :
    index.entries.filter (fun row => corner row.range == place)
      = rows.filter fun row => corner row.range == place := by
  rw [← h.entriesAt_eq]
  -- the induction is on the corners alone, so what it needs of the file is kept apart
  have hcorner : ∀ entry ∈ index.corners, ∀ row ∈ entry.2,
      corner row.range = entry.1 :=
    fun entry hentry row hrow => (h.corner_eq hentry hrow).2
  have hsorted := h.sorted
  obtain ⟨corners⟩ := index
  clear h
  induction corners with
  | nil => rfl
  | cons head corners ih =>
    obtain ⟨hhead, hcorners⟩ := List.pairwise_cons.1 hsorted
    have hrest := ih (fun entry hentry => hcorner entry (List.mem_cons_of_mem _ hentry))
      hcorners
    rw [entriesAt_cons]
    have hsplit : (CornerIndex.mk (head :: corners)).entries
        = head.2 ++ (CornerIndex.mk corners).entries := List.flatMap_cons
    rw [hsplit, List.filter_append, hrest]
    by_cases hplace : head.1 = place
    · rw [if_pos hplace, entriesAt_eq_nil, List.append_nil, List.filter_eq_self]
      · intro row hrow
        simp [hcorner head List.mem_cons_self row hrow, hplace]
      · intro entry hentry
        exact hplace ▸ (Cell.ne_of_compare_lt (hhead entry hentry)).symm
    · rw [if_neg hplace, List.append_left_eq_self, List.filter_eq_nil_iff]
      intro row hrow
      simp [hcorner head List.mem_cons_self row hrow, hplace]

/-- **Going through an index gives its rows sorted by their corners**, rows with
one corner in the order in which they came. This is the order in which a store
lists its ranges and values. -/
theorem entries_eq (h : Files corner index rows) :
    index.entries = sortRows corner rows :=
  eq_of_filter_eq h.pairwise_entries (pairwise_sortRows corner rows) fun place => by
    rw [h.filter_entries, filter_sortRows]

end Files

end CornerIndex

end Worksheet
