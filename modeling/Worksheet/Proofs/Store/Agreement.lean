import Worksheet.Proofs.Store.Run

/-!
# The indices of a store agree

A store files a range under its first corner, under its last corner and under
each of its values, and each operation edits the three files apart.
`RangeStore.InStep` is what has to hold between them and within each: they hold
the same ranges with the same values, and keep nothing empty and nothing twice.

A store that follows a ledger is in step, since all three files are files of one
list of rows; so every store that can be reached is (`RangeStore.inStep_run`).
-/

namespace Worksheet

variable {V : Type} [BEq V]

/-- **A corner index is tidy**: its corners are in strict order, each has
ranges, a range stands under its own corner, once, and has values, each once.
Nothing is said here of another index. -/
structure CornerIndex.Tidy (corner : CellRange → Cell) (index : CornerIndex V) :
    Prop where
  /-- Every corner comes before the next one. -/
  sorted : index.corners.Pairwise fun a b => a.1.compare b.1 = .lt
  /-- No corner is empty. -/
  ranges_ne_nil : ∀ entry ∈ index.corners, entry.2 ≠ []
  /-- No range is empty. -/
  values_ne_nil : ∀ entry ∈ index.corners, ∀ row ∈ entry.2, row.values ≠ []
  /-- A range stands under its corner. -/
  corner_eq : ∀ entry ∈ index.corners, ∀ row ∈ entry.2, corner row.range = entry.1
  /-- No range stands there twice. -/
  ranges_nodup : ∀ entry ∈ index.corners, (entry.2.map RangeEntry.range).Nodup
  /-- No value is in a range twice. -/
  values_distinct : ∀ entry ∈ index.corners, ∀ row ∈ entry.2, Distinct row.values

/-- A file of sound rows is tidy: its corners are those of `CornerIndex.Files`,
and what stands under them are rows of a list in which no range and no value
comes twice. -/
theorem CornerIndex.Files.tidy {corner : CellRange → Cell} {index : CornerIndex V}
    {rows : List (RangeEntry V)} (h : index.Files corner rows) (hrows : SoundRows rows) :
    index.Tidy corner where
  sorted := h.sorted
  ranges_ne_nil := h.ne_nil
  values_ne_nil := fun _ hentry row hrow => hrows.ne_nil row (h.corner_eq hentry hrow).1
  corner_eq := fun _ hentry _ hrow => (h.corner_eq hentry hrow).2
  ranges_nodup := fun entry hentry => by
    rw [← h.entriesAt_of_mem hentry, h.entriesAt_eq]
    exact hrows.nodup.sublist (List.filter_sublist.map _)
  values_distinct := fun _ hentry row hrow =>
    hrows.distinct row (h.corner_eq hentry hrow).1

variable [Hashable V]

/-- What stands under a value of a sound file is found by looking the value up,
since no other entry of the file has an equal value. -/
theorem Holders.Sound.rangesOf_of_mem [EquivBEq V] [LawfulHashable V]
    {holders : Holders V} (h : holders.Sound) {entry : V × List CellRange}
    (hentry : entry ∈ holders) : rangesOf holders entry.1 = entry.2 := by
  unfold rangesOf
  simp only [isSame_eq]
  rw [find?_key_of_mem h.distinct hentry]
  rfl

namespace RangeStore

/-- **The indices of a store are in step.** The first three fields are said
between the indices, the others within each of them; together they leave no way
to tell from one index what another denies. -/
structure InStep (store : RangeStore V) : Prop where
  /-- Both corners have the same values for a range, in the same order. -/
  load_eq : ∀ range, store.load range = store.loadByEnd range
  /-- A value is in a range under its first corner exactly when it is there
  under its last one. -/
  contains_iff : ∀ range value,
    (store.load range).contains value = true
      ↔ (store.loadByEnd range).contains value = true
  /-- It is there exactly when the range is among those with the value. -/
  mem_rangesWith_iff : ∀ range value,
    range ∈ store.rangesWith value ↔ (store.load range).contains value = true
  /-- The ranges by their first corners are tidy. -/
  topLeft : store.topLeft.Tidy CellRange.first
  /-- The ranges by their last corners are tidy. -/
  bottomRight : store.bottomRight.Tidy CellRange.last
  /-- No two values that are filed are equal. -/
  values_distinct : store.holders.Pairwise fun a b => (a.1 == b.1) = false
  /-- No value is filed without ranges. -/
  ranges_ne_nil : ∀ entry ∈ store.holders, entry.2 ≠ []
  /-- No range is filed under a value twice. -/
  ranges_nodup : ∀ entry ∈ store.holders, entry.2.Nodup

variable [EquivBEq V] [LawfulHashable V]

/-- A store that follows a ledger is in step. All three indices file the rows of
that one ledger, so each field is read off the rows. -/
theorem Follows.inStep {store : RangeStore V} {ledger : Ledger V}
    (h : Follows store ledger) : InStep store where
  load_eq := fun range => by rw [h.load_eq, h.loadByEnd_eq]
  contains_iff := fun range value => by rw [h.contains_load, h.contains_loadByEnd]
  mem_rangesWith_iff := fun range value => by
    rw [h.contains_load, ← h.holders.contains_rangesOf, rangesWith, List.contains_iff_mem]
  topLeft := h.topLeft.tidy h.sound
  bottomRight := h.bottomRight.tidy h.sound
  values_distinct := h.holders.sound.distinct
  ranges_ne_nil := h.holders.sound.ne_nil
  ranges_nodup := fun entry hentry => by
    rw [← h.holders.sound.rangesOf_of_mem hentry, h.holders.rangesOf_eq]
    exact nodup_receivers _ _ _

/-- **After any operations the indices are in step**, whatever the values are,
as long as their equality is an equivalence and agrees with their hash. -/
theorem inStep_run (operations : List (StoreOperation V)) :
    InStep ((RangeStore.empty : RangeStore V).run operations).2 :=
  (follows_run operations).inStep

/-- A run in which a value is merged away and a range goes with its last value:
the two cases in which an entry has to be dropped from an index. -/
theorem inStep_merge :
    let one := CellRange.single ⟨⟨0, .relative⟩, ⟨0, .relative⟩⟩
    let other := CellRange.single ⟨⟨1, .relative⟩, ⟨0, .relative⟩⟩
    InStep ((RangeStore.empty : RangeStore Nat).run
      [.add one 7, .add one 8, .add other 8, .replace one 8 7, .remove one 8]).2 :=
  inStep_run _

end RangeStore

end Worksheet
