import Worksheet.Proofs.Store.Run

/-!
# A store shows what its ledger says

Everything that can be asked of a store can be read off a plain list of rows:
`RangeStore.Shows` lists the questions, and says that the answers are those of
the ledger. The ranges and the values come in the order of the first corners,
ranges with one corner in the order in which they came, which is the stable sort
of the rows.

After any operations the store has answered what the ledger answers, and shows
what the ledger says (`RangeStore.run_shows_ledger`).
-/

namespace Worksheet

variable {V : Type} [BEq V] [Hashable V]

namespace RangeStore

/-- **A store shows a ledger**: whatever is asked of the one can be read off the
rows and the receipts of the other. -/
structure Shows (store : RangeStore V) (ledger : Ledger V) : Prop where
  /-- The values of a range are those of its row. -/
  load_eq : ∀ range, store.load range = ledger.valuesOf range
  /-- There are as many ranges as rows. -/
  size_eq : store.size = ledger.rows.length
  /-- The ranges are those of the rows, sorted by their first corners. -/
  ranges_eq : ∀ start count, store.ranges start count
    = (((CornerIndex.sortRows CellRange.first ledger.rows).map RangeEntry.range).drop
        start).take count
  /-- The values are those of the rows, sorted likewise. -/
  values_eq : ∀ start count, store.values start count
    = (((CornerIndex.sortRows CellRange.first ledger.rows).flatMap RangeEntry.values).drop
        start).take count
  /-- The ranges with a value are those that hold it, in the order in which they
  last received it. -/
  rangesWith_eq : ∀ value, store.rangesWith value = ledger.rangesWith value

/-- A store shows the ledger that it follows. Lists of ranges and values are
read off the entries of the first corners, which are the sorted rows by
`CornerIndex.Files.entries_eq`. -/
theorem Follows.shows {store : RangeStore V} {ledger : Ledger V}
    (h : Follows store ledger) : Shows store ledger where
  load_eq := h.load_eq
  size_eq := by
    rw [size, h.topLeft.entries_eq]
    exact (CornerIndex.sortRows_perm _ _).length_eq
  ranges_eq := fun start count => by
    rw [ranges, h.topLeft.entries_eq, List.map_take, List.map_drop]
  values_eq := fun start count => by
    rw [values, h.topLeft.entries_eq]
  rangesWith_eq := h.rangesWith_eq

/-- **A run of a store is a run of a ledger**: the rows are sound, every
operation is answered as the ledger answers it, and the store shows the ledger. -/
theorem run_shows_ledger [EquivBEq V] [LawfulHashable V]
    (operations : List (StoreOperation V)) :
    let store := (RangeStore.empty : RangeStore V).run operations
    let ledger := Ledger.empty.run operations
    SoundRows ledger.2.rows ∧ store.1 = ledger.1 ∧ Shows store.2 ledger.2 := by
  obtain ⟨hanswers, hfollows⟩ := Follows.empty.run operations
  exact ⟨hfollows.sound, hanswers, hfollows.shows⟩

/-- A replacement that merges two values of a range, and one that puts a range
behind another that got the value before. -/
theorem shows_ledger_merge :
    let one := CellRange.single ⟨⟨0, .relative⟩, ⟨0, .relative⟩⟩
    let other := CellRange.single ⟨⟨1, .relative⟩, ⟨0, .relative⟩⟩
    let operations : List (StoreOperation Nat) :=
      [.add one 7, .add one 8, .add other 8, .replace one 8 7, .replace one 9 8,
        .replace one 8 9, .delete other]
    let store := (RangeStore.empty : RangeStore Nat).run operations
    let ledger := Ledger.empty.run operations
    store.1 = [.changed true, .changed true, .changed true, .changed true, .changed true,
        .changed true, .deleted [8]]
      ∧ SoundRows ledger.2.rows ∧ store.1 = ledger.1 ∧ Shows store.2 ledger.2 :=
  ⟨by decide, run_shows_ledger _⟩

end RangeStore

end Worksheet
