import Worksheet.Proofs.Store.Run

/-!
# Finding the ranges at a cell

The ranges that contain a cell are looked for from both sides: back through the
first corners up to the cell, and on through the last corners from the cell.
Both walks meet every range there is to find, since a range that contains a cell
starts at or before it and ends at or after it, row by row
(`CellRange.between_of_contains`). What a walk gives when it is through is
therefore a permutation of a full scan of the rows, whichever walk it is
(`RangeStore.Follows.walk_perm`), and sorting makes it one list.

The bound needs corners without anchors, which is what a range built from two
cells has. Which ranges a store has is decided by the operations alone
(`Ledger.range_of_mem_step`), so it is asked of these.
-/

namespace Worksheet

variable {V : Type}

/-! ## The walks

Both walks take the same steps, each in an index of its own. Which of them is
through first depends on the ranges, so `walk_eq` gives both outcomes and the
lemmas after it show that they agree. -/

theorem flatMap_filter_of_nil {α β : Type} {p : α → Bool} {f : α → List β}
    {list : List α} (h : ∀ a ∈ list, p a = false → f a = []) :
    (list.filter p).flatMap f = list.flatMap f := by
  induction list with
  | nil => rfl
  | cons a list ih =>
    have hrest := ih fun b hb => h b (List.mem_cons_of_mem _ hb)
    cases ha : p a with
    | true => rw [List.filter_cons_of_pos ha, List.flatMap_cons, List.flatMap_cons, hrest]
    | false =>
      rw [List.filter_cons_of_neg (by rw [ha]; exact Bool.false_ne_true),
        List.flatMap_cons, h a List.mem_cons_self ha, hrest, List.nil_append]

namespace RangeStore

/-- **The walk that is through first decides**: what is found is what one of the
walks finds when it goes on to its end. What the other walk has found so far is
left aside. -/
theorem walk_eq (cell : Cell) (starts ends : List (List (RangeEntry V)))
    (fromStarts fromEnds : List CellRange) :
    walk cell starts ends fromStarts fromEnds
        = fromStarts ++ starts.flatMap (containing cell)
      ∨ walk cell starts ends fromStarts fromEnds
        = fromEnds ++ ends.flatMap (containing cell) := by
  induction starts generalizing ends fromStarts fromEnds with
  | nil =>
    refine Or.inl ?_
    rw [walk, List.flatMap_nil, List.append_nil]
  | cons start starts ih =>
    cases ends with
    | nil =>
      refine Or.inr ?_
      rw [walk, List.flatMap_nil, List.append_nil]
    | cons last ends =>
      rw [walk, List.flatMap_cons, List.flatMap_cons, ← List.append_assoc,
        ← List.append_assoc]
      exact ih ends _ _

theorem flatMap_containing (cell : Cell) (corners : List (Cell × List (RangeEntry V))) :
    corners.flatMap (fun entry => containing cell entry.2)
      = containing cell (corners.flatMap Prod.snd) := by
  unfold containing
  rw [List.map_flatMap, List.filter_flatMap]

/-- **Only corners on one side of the cell are needed**: where ranges that
contain the cell have their corner on that side, the corners of the other side
may be left out. -/
theorem flatMap_containing_filter {corner : CellRange → Cell} {index : CornerIndex V}
    {rows : List (RangeEntry V)} (h : index.Files corner rows) (cell : Cell)
    (p : Cell → Bool)
    (hside : ∀ row ∈ rows, row.range.contains cell = true → p (corner row.range) = true) :
    ((index.corners.filter fun entry => p entry.1).map Prod.snd).flatMap (containing cell)
      = containing cell index.entries := by
  rw [List.flatMap_map, flatMap_filter_of_nil, flatMap_containing, CornerIndex.entries]
  intro entry hentry hp
  refine List.filter_eq_nil_iff.2 fun range hrange hcontains => ?_
  obtain ⟨row, hrow, rfl⟩ := List.mem_map.1 hrange
  obtain ⟨hmem, hcorner⟩ := h.corner_eq hentry hrow
  rw [← hcorner, hside row hmem hcontains] at hp
  cases hp

variable [BEq V] [Hashable V]

/-- **Either walk finds what a full scan of the rows finds.** Both indices file
the same rows, so after `flatMap_containing_filter` has taken the bounds away
each walk is a scan of the rows in another order. -/
theorem Follows.walk_perm {store : RangeStore V} {ledger : Ledger V}
    (h : Follows store ledger) (hrelative : ∀ row ∈ ledger.rows, row.range.IsRelative)
    (cell : Cell) : (store.rangesAt cell).Perm (containing cell ledger.rows) := by
  -- a range around the cell begins at or before it and ends at or after it, so
  -- neither index leaves it out
  have hside : ∀ row ∈ ledger.rows, row.range.contains cell.toRelative = true →
      (row.range.first.compare cell.toRelative).isLE = true ∧
        (cell.toRelative.compare row.range.last).isLE = true := fun row hrow hcontains =>
    CellRange.between_of_contains (hrelative row hrow) hcontains
  have hscan : ∀ {corner : CellRange → Cell} {index : CornerIndex V},
      index.Files corner ledger.rows →
        (containing cell.toRelative index.entries).Perm (containing cell ledger.rows) := by
    intro corner index hindex
    rw [hindex.entries_eq]
    exact ((CornerIndex.sortRows_perm corner ledger.rows).map _).filter _
  refine (List.mergeSort_perm _ _).trans ?_
  rcases walk_eq cell.toRelative
      ((store.topLeft.corners.filter fun entry =>
        (entry.1.compare cell.toRelative).isLE).reverse.map Prod.snd)
      ((store.bottomRight.corners.filter fun entry =>
        (cell.toRelative.compare entry.1).isLE).map Prod.snd) [] [] with heq | heq
  · rw [heq, List.nil_append]
    refine (((List.reverse_perm _).map _).flatMap_right _).trans ?_
    rw [flatMap_containing_filter h.topLeft cell.toRelative
      (fun corner => (corner.compare cell.toRelative).isLE)
      fun row hrow hcontains => (hside row hrow hcontains).1]
    exact hscan h.topLeft
  · rw [heq, List.nil_append, flatMap_containing_filter h.bottomRight cell.toRelative
      (fun corner => (cell.toRelative.compare corner).isLE)
      fun row hrow hcontains => (hside row hrow hcontains).2]
    exact hscan h.bottomRight

end RangeStore

/-! ## The ranges of a run

Which ranges are in a store is settled by the operations. It is used for ranges
whose corners have no anchors, since the walks stop by an order of corners in
which anchors count. -/

theorem range_of_mem_changeRow {range : CellRange} {f : List V → List V}
    {rows : List (RangeEntry V)} {row : RangeEntry V} (h : row ∈ changeRow range f rows) :
    row.range ∈ rows.map RangeEntry.range := by
  obtain ⟨row', hrow', heq⟩ := List.mem_map.1 (List.mem_filter.1 h).1
  split at heq
  · rename_i hrange
    have hmem : row'.range ∈ rows.map RangeEntry.range := List.mem_map_of_mem hrow'
    rw [hrange] at hmem
    exact heq ▸ hmem
  · exact heq ▸ List.mem_map_of_mem hrow'

variable [BEq V]

/-- **An operation brings no other range than its own.** Hence a property of the
ranges that are operated on is one of all ranges in a store. -/
theorem Ledger.range_of_mem_step {ledger : Ledger V} {operation : StoreOperation V}
    {row : RangeEntry V} (h : row ∈ (ledger.step operation).2.rows) :
    row.range ∈ ledger.rows.map RangeEntry.range ∨ row.range = operation.range := by
  cases operation with
  | add range value =>
    change row ∈ (ledger.add range value).2.rows at h
    unfold Ledger.add at h
    split at h
    · exact Or.inl (List.mem_map_of_mem h)
    · dsimp only at h
      split at h
      · exact Or.inl (range_of_mem_changeRow h)
      · rcases List.mem_append.1 h with h | h
        · exact Or.inl (List.mem_map_of_mem h)
        · -- only adding a value makes a row, for the range it is given
          exact Or.inr (congrArg RangeEntry.range (List.mem_singleton.1 h))
  | remove range value =>
    change row ∈ (ledger.remove range value).2.rows at h
    unfold Ledger.remove at h
    split at h
    · have hmem : row ∈ changeRow range (fun values => values.erase value) ledger.rows := h
      exact Or.inl (range_of_mem_changeRow hmem)
    · exact Or.inl (List.mem_map_of_mem h)
  | replace range new old =>
    change row ∈ (ledger.replace range new old).2.rows at h
    unfold Ledger.replace at h
    split at h
    · split at h
      · have hmem : row ∈ changeRow range (fun values => values.erase old) ledger.rows := h
        exact Or.inl (range_of_mem_changeRow hmem)
      · have hmem : row ∈ changeRow range (fun values => values.replace old new) ledger.rows := h
        exact Or.inl (range_of_mem_changeRow hmem)
    · exact Or.inl (List.mem_map_of_mem h)
  | delete range => exact Or.inl (List.mem_map_of_mem (List.mem_filter.1 h).1)

/-- **What is true of all ranges that are operated on** is true of the ranges of
the rows after a run. -/
theorem Ledger.forall_range_run {p : CellRange → Prop} {ledger : Ledger V}
    (hledger : ∀ row ∈ ledger.rows, p row.range) {operations : List (StoreOperation V)}
    (h : ∀ operation ∈ operations, p operation.range) :
    ∀ row ∈ (ledger.run operations).2.rows, p row.range := by
  induction operations generalizing ledger with
  | nil => exact hledger
  | cons operation operations ih =>
    refine ih (fun row hrow => ?_) fun other hother => h other (List.mem_cons_of_mem _ hother)
    rcases Ledger.range_of_mem_step hrow with hmem | heq
    · obtain ⟨row', hrow', heq⟩ := List.mem_map.1 hmem
      exact heq ▸ hledger row' hrow'
    · exact heq ▸ h operation List.mem_cons_self

/-! ## What is found

`FindsAt` is stated against the values that the store loads for each range, and
not against the ledger, so it needs no knowledge of how the store came about. -/

namespace RangeStore

variable [Hashable V]

/-- **A store finds what is at a cell**: the ranges in strict order, none missed
and none twice, and their values, each at its first occurrence. `scan` says the
same of the ranges by what a store without any index would do. -/
structure FindsAt (store : RangeStore V) (cell : Cell) : Prop where
  /-- Every range comes before the next one. -/
  sorted : (store.rangesAt cell).Pairwise fun a b => a.compare b = .lt
  /-- The ranges are all those that contain the cell. -/
  mem_iff : ∀ range, range ∈ store.rangesAt cell
    ↔ range ∈ store.ranges 0 store.size ∧ range.contains cell = true
  /-- A full scan of the ranges gives the same. -/
  scan : store.rangesAt cell
    = ((store.ranges 0 store.size).filter fun range => range.contains cell).mergeSort
        fun a b => (a.compare b).isLE
  /-- The values are those of the ranges, each at its first occurrence. -/
  values : store.valuesAt cell
    = ((store.rangesAt cell).flatMap store.load).eraseDups
  /-- No value is listed twice. -/
  distinct : Distinct (store.valuesAt cell)
  /-- A value is listed when a range has it. -/
  contains_iff : ∀ value, (store.valuesAt cell).contains value = true
    ↔ ∃ range ∈ store.rangesAt cell, (store.load range).contains value = true

omit [BEq V] [Hashable V] in
theorem ranges_all (store : RangeStore V) :
    store.ranges 0 store.size = store.topLeft.entries.map RangeEntry.range := by
  rw [ranges, List.drop_zero, size, List.take_length]

omit [BEq V] [Hashable V] in
theorem pairwise_rangesAt (store : RangeStore V) (cell : Cell) :
    (store.rangesAt cell).Pairwise fun a b => (a.compare b).isLE = true :=
  List.pairwise_mergeSort (fun _ _ _ => Std.TransCmp.isLE_trans)
    (fun _ _ => isLE_or_isLE _ _) _

omit [Hashable V] in
theorem valuesAt_eq (store : RangeStore V) (cell : Cell) :
    store.valuesAt cell = ((store.rangesAt cell).flatMap store.load).eraseDups := by
  rw [valuesAt, foldl_append_new, List.nil_append, List.filter_eq_self.2]
  exact fun _ _ => rfl

variable [EquivBEq V]

/-- **A store that follows a ledger finds what is at a cell.** That a range is
found once is due to `SoundRows`; that ranges of one rank are equal makes the
order strict. -/
theorem Follows.findsAt {store : RangeStore V} {ledger : Ledger V}
    (h : Follows store ledger) (hrelative : ∀ row ∈ ledger.rows, row.range.IsRelative)
    (cell : Cell) : FindsAt store cell := by
  have hall : (store.ranges 0 store.size).Perm (ledger.rows.map RangeEntry.range) := by
    rw [ranges_all, h.topLeft.entries_eq]
    exact (CornerIndex.sortRows_perm _ _).map _
  have hscan : (store.rangesAt cell).Perm
      ((store.ranges 0 store.size).filter fun range => range.contains cell) :=
    (h.walk_perm hrelative cell).trans (hall.filter _).symm
  have hnodup : (store.rangesAt cell).Nodup :=
    hscan.nodup_iff.2 ((hall.nodup_iff.2 h.sound.nodup).filter _)
  refine ⟨?_, fun range => ?_, ?_, valuesAt_eq store cell, ?_, fun value => ?_⟩
  · refine pairwise_lt_of_isLE (pairwise_rangesAt store cell) (hnodup.imp fun hne hcompare => ?_)
    exact hne (Std.LawfulEqCmp.eq_of_compare hcompare)
  · rw [hscan.mem_iff, List.mem_filter]
  · refine List.Perm.eq_of_pairwise (fun a b _ _ hab hba => ?_)
      (pairwise_rangesAt store cell)
      (List.pairwise_mergeSort (fun _ _ _ => Std.TransCmp.isLE_trans)
        (fun _ _ => isLE_or_isLE _ _) _)
      (hscan.trans (List.mergeSort_perm _ _).symm)
    exact Std.LawfulEqCmp.eq_of_compare (Std.OrientedCmp.isLE_antisymm hab hba)
  · rw [valuesAt_eq]
    exact distinct_eraseDups _
  · rw [valuesAt_eq, contains_eraseDups, List.contains_eq_any_beq, List.any_flatMap,
      List.any_eq_true]
    simp only [List.contains_eq_any_beq]

variable [LawfulHashable V]

/-- **After any operations on ranges without anchors in their corners, a store
finds what is at a cell**, with whatever anchors the cell is given. Anchors in
the corners of a range would count in the order of the corners, and the walks
stop by that order. -/
theorem run_findsAt {operations : List (StoreOperation V)}
    (h : ∀ operation ∈ operations, operation.range.IsRelative) (cell : Cell) :
    FindsAt ((RangeStore.empty : RangeStore V).run operations).2 cell :=
  (follows_run operations).findsAt
    (Ledger.forall_range_run (fun _ hrow => absurd hrow List.not_mem_nil) h) cell

/-- Two overlapping ranges, one of which starts in the row of the cell and after
its column, and one that came and went. -/
theorem findsAt_overlap :
    let cell : Nat → Nat → Cell := fun column row => ⟨⟨column, .absolute⟩, ⟨row, .relative⟩⟩
    let operations : List (StoreOperation Nat) :=
      [.add (.spanning (cell 0 0) (cell 4 2)) 7, .add (.spanning (cell 3 1) (cell 5 1)) 7,
        .add (.spanning (cell 2 2) (cell 1 1)) 8, .add (.single (cell 2 1)) 9,
        .replace (.spanning (cell 1 1) (cell 2 2)) 7 8, .delete (.single (cell 2 1))]
    (∀ operation ∈ operations, operation.range.IsRelative) ∧
      FindsAt ((RangeStore.empty : RangeStore Nat).run operations).2 (cell 2 1) :=
  ⟨by decide, run_findsAt (by decide) _⟩

end RangeStore

end Worksheet
