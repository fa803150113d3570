import Worksheet.Proofs.Store.Ledger

/-!
# A store follows its ledger

Whatever is done to a store, one operation after another, its three indices stay
in step with one ledger: `RangeStore.Follows` says that both corner indices file
the rows of the ledger, one by first and one by last corners, and that the file
of values lists its receivers.

The step lemma (`RangeStore.Follows.step`) has a case for each operation: the
store and the ledger give the same answer, and the store they leave follows the
ledger they leave. By induction on the operations the same is true of a whole
run (`RangeStore.follows_run`), which is what every statement about the stores
that can be reached goes through.
-/

namespace Worksheet

variable {V : Type}

/-! ## Operations

Operations and answers are data, so that a run is a function of a list of them.
The store and the ledger have the same operations and the same answers. -/

/-- What can be done to the values of a store. -/
inductive StoreOperation (V : Type) where
  /-- A range gets a value. -/
  | add (range : CellRange) (value : V)
  /-- A range loses a value. -/
  | remove (range : CellRange) (value : V)
  /-- A range gets a value in the place of another. -/
  | replace (range : CellRange) (new old : V)
  /-- A range loses all its values. -/
  | delete (range : CellRange)
  deriving DecidableEq, Repr

/-- What comes back from an operation. Three of the four say whether anything
was changed. -/
inductive StoreAnswer (V : Type) where
  /-- Whether anything was changed. -/
  | changed (done : Bool)
  /-- The values that were deleted. -/
  | deleted (values : List V)
  deriving DecidableEq, Repr

def StoreOperation.range : StoreOperation V → CellRange
  | .add range _ => range
  | .remove range _ => range
  | .replace range _ _ => range
  | .delete range => range

variable [BEq V]

/-- What a ledger answers to an operation, and the ledger after it. -/
def Ledger.step (ledger : Ledger V) : StoreOperation V → StoreAnswer V × Ledger V
  | .add range value => (ledger.add range value).map .changed id
  | .remove range value => (ledger.remove range value).map .changed id
  | .replace range new old => (ledger.replace range new old).map .changed id
  | .delete range => (ledger.delete range).map .deleted id

/-- What a ledger answers to operations one after another, and the ledger after
all of them. -/
def Ledger.run (ledger : Ledger V) :
    List (StoreOperation V) → List (StoreAnswer V) × Ledger V
  | [] => ([], ledger)
  | operation :: operations =>
    let (answer, ledger) := ledger.step operation
    let (answers, ledger) := ledger.run operations
    (answer :: answers, ledger)

/-- **What a ledger holds after the values of a range have changed** is said of
that range and of the others apart. Each operation changes one row, so this is
how its effect on `holds` is computed. -/
theorem Ledger.holds_eq_of_rows {ledger ledger' : Ledger V} (h : SoundRows ledger.rows)
    {range : CellRange} {values : List V}
    (hrows : ledger'.rows = CornerIndex.setValues range values ledger.rows)
    {p : CellRange → V → Bool} (hvalues : ∀ v, values.contains v = p range v)
    (hothers : ∀ other, (other == range) = false → ∀ v, ledger.holds other v = p other v)
    (other : CellRange) (v : V) : ledger'.holds other v = p other v := by
  unfold Ledger.holds Ledger.valuesOf
  rw [hrows, CornerIndex.rowValues_setValues h.nodup]
  by_cases hother : range = other
  · rw [if_pos hother, hvalues, hother]
  · rw [if_neg hother]
    exact hothers other (by simpa using Ne.symm hother) v

namespace RangeStore

variable [Hashable V]

def Outcome.map {α β : Type} (f : α → β) (outcome : Outcome V α) : Outcome V β :=
  { outcome with answer := f outcome.answer }

def operate (store : RangeStore V) : StoreOperation V → Outcome V (StoreAnswer V)
  | .add range value => (store.add range value).map .changed
  | .remove range value => (store.remove range value).map .changed
  | .replace range new old => (store.replace range new old).map .changed
  | .delete range => (store.delete range).map .deleted

/-- What a store answers to an operation, and the store after it. What watchers
are told is left aside here (`Worksheet.Proofs.Store.Notices`). -/
def step (store : RangeStore V) (operation : StoreOperation V) : StoreAnswer V × RangeStore V :=
  let outcome := store.operate operation
  (outcome.answer, outcome.store)

/-- What a store answers to operations one after another, and the store after
all of them. -/
def run (store : RangeStore V) :
    List (StoreOperation V) → List (StoreAnswer V) × RangeStore V
  | [] => ([], store)
  | operation :: operations =>
    let (answer, store) := store.step operation
    let (answers, store) := store.run operations
    (answer :: answers, store)

/-! ## Following

Two stores that follow one ledger cannot be told apart by what is asked of
them. The lemmas here say so of one question each. -/

/-- **A store follows a ledger**: its corner indices file the rows, and its file
of values lists the receivers. This is the simulation relation, and the only
thing that is known of a store in all that follows. -/
structure Follows (store : RangeStore V) (ledger : Ledger V) : Prop where
  /-- The rows are sound. -/
  sound : SoundRows ledger.rows
  /-- The rows by their first corners. -/
  topLeft : store.topLeft.Files CellRange.first ledger.rows
  /-- The rows by their last corners. -/
  bottomRight : store.bottomRight.Files CellRange.last ledger.rows
  /-- The receivers of every value. -/
  holders : store.holders.Files ledger.received ledger.holds

namespace Follows

variable {store : RangeStore V} {ledger : Ledger V}

theorem empty : Follows (RangeStore.empty : RangeStore V) Ledger.empty where
  sound := SoundRows.nil
  topLeft := CornerIndex.Files.empty _
  bottomRight := CornerIndex.Files.empty _
  holders := Holders.Files.nil

/-- A range has the values of its row. -/
theorem load_eq (h : Follows store ledger) (range : CellRange) :
    store.load range = ledger.valuesOf range :=
  h.topLeft.valuesOf_eq range

theorem loadByEnd_eq (h : Follows store ledger) (range : CellRange) :
    store.loadByEnd range = ledger.valuesOf range :=
  h.bottomRight.valuesOf_eq range

/-- **A change of the values of a range changes no other range** under the first
corners; for the last corners there is `loadByEnd_change`. -/
theorem load_change (h : Follows store ledger) (range : CellRange) (f : List V → List V)
    (other : CellRange) :
    (store.change range f).load other
      = if range = other then f (store.load range) else store.load other :=
  h.topLeft.valuesOf_update h.sound.nodup range _ other

theorem loadByEnd_change (h : Follows store ledger) (range : CellRange)
    (f : List V → List V) (other : CellRange) :
    (store.change range f).loadByEnd other
      = if range = other then f (store.loadByEnd range) else store.loadByEnd other :=
  h.bottomRight.valuesOf_update h.sound.nodup range _ other

/-- A value lists the ranges that received it. -/
theorem rangesWith_eq (h : Follows store ledger) (value : V) :
    store.rangesWith value = ledger.rangesWith value :=
  h.holders.rangesOf_eq value

/-! ## One operation

Every operation changes the values of one range, in both corner indices, and
the file of some values. The first part is the same for all of them
(`change`). -/

/-- **A change of values under both corners is a change of the row.** The four
operations differ in how they change the values of a range and the file of
values; what they do to the two corner indices is said here once. -/
theorem change (h : Follows store ledger) {ledger' : Ledger V} {range : CellRange}
    {f : List V → List V} {holders : Holders V}
    (hrows : ledger'.rows
      = CornerIndex.setValues range (f (ledger.valuesOf range)) ledger.rows)
    (hdistinct : Distinct (f (ledger.valuesOf range)))
    (hholders : holders.Files ledger'.received ledger'.holds) :
    Follows { store.change range f with holders := holders } ledger' where
  sound := hrows ▸ h.sound.setValues range hdistinct
  topLeft := by
    rw [hrows, ← h.load_eq]
    exact h.topLeft.update range _
  bottomRight := by
    rw [hrows, ← h.loadByEnd_eq]
    exact h.bottomRight.update range _
  holders := hholders

theorem contains_load (h : Follows store ledger) (range : CellRange) (value : V) :
    (store.load range).contains value = ledger.holds range value := by
  rw [h.load_eq, Ledger.holds]

theorem contains_loadByEnd (h : Follows store ledger) (range : CellRange) (value : V) :
    (store.loadByEnd range).contains value = ledger.holds range value := by
  rw [h.loadByEnd_eq, Ledger.holds]

theorem distinct_valuesOf (h : Follows store ledger) (range : CellRange) :
    Distinct (ledger.valuesOf range) :=
  h.sound.distinct_rowValues range

theorem mem_of_holds (h : Follows store ledger) {range : CellRange} {value : V}
    (hholds : ledger.holds range value = true) :
    range ∈ ledger.rows.map RangeEntry.range := by
  refine h.sound.mem_iff.2 fun hnil => ?_
  rw [Ledger.holds, Ledger.valuesOf, hnil] at hholds
  cases hholds

/-- The row of a range that holds a value changes with its values, so that what
a ledger does to a row is what an index does to the values of a range. -/
theorem changeRow_eq (h : Follows store ledger) {range : CellRange} {value : V}
    (hholds : ledger.holds range value = true) (f : List V → List V) :
    changeRow range f ledger.rows
      = CornerIndex.setValues range (f (ledger.valuesOf range)) ledger.rows :=
  changeRow_eq_setValues h.sound.nodup h.sound.ne_nil (h.mem_of_holds hholds) f

variable [EquivBEq V]

omit [Hashable V] in
/-- Equal values are held together. -/
theorem holds_congr (ledger : Ledger V) (range : CellRange) {value value' : V}
    (h : (value == value') = true) :
    ledger.holds range value = ledger.holds range value' :=
  contains_congr _ h

variable [LawfulHashable V]

/-- **A range gets a value**, or has it already. In the latter case both sides
answer that nothing was done, and neither is changed. -/
theorem add (h : Follows store ledger) (range : CellRange) (value : V) :
    (store.add range value).answer = (ledger.add range value).1 ∧
      Follows (store.add range value).store (ledger.add range value).2 := by
  unfold RangeStore.add Ledger.add
  rw [h.contains_load]
  cases hholds : ledger.holds range value with
  | true =>
    rw [if_pos rfl, if_pos rfl]
    exact ⟨rfl, h⟩
  | false =>
    rw [if_neg Bool.false_ne_true, if_neg Bool.false_ne_true]
    refine ⟨rfl, ?_⟩
    have hnew : (ledger.valuesOf range).contains value = false := hholds
    -- a range with a row is changed there, another one gets a row at the end
    have hrows : (if ledger.rows.any fun row => row.range = range then
          changeRow range (fun values => values ++ [value]) ledger.rows
        else ledger.rows ++ [⟨range, [value]⟩])
        = CornerIndex.setValues range (ledger.valuesOf range ++ [value]) ledger.rows := by
      by_cases hmem : range ∈ ledger.rows.map RangeEntry.range
      · rw [if_pos (by simpa using hmem)]
        exact changeRow_eq_setValues h.sound.nodup h.sound.ne_nil hmem _
      · rw [if_neg (by simpa using hmem), Ledger.valuesOf, rowValues_of_absent hmem]
        exact (setValues_of_absent hmem (List.cons_ne_nil _ _)).symm
    refine h.change ?_ ?_ (h.holders.insert ?_ ?_)
    · rw [hnew]
      exact hrows
    · rw [hnew]
      exact (h.distinct_valuesOf range).append hnew
    · exact fun v hv => (holds_congr ledger range hv).trans hholds
    · refine Ledger.holds_eq_of_rows h.sound hrows (fun v => ?_) fun other hother v => ?_
      · simp [Ledger.holds]
      · simp [hother]

/-- **A range loses a value**, if it has it. -/
theorem remove (h : Follows store ledger) (range : CellRange) (value : V) :
    (store.remove range value).answer = (ledger.remove range value).1 ∧
      Follows (store.remove range value).store (ledger.remove range value).2 := by
  unfold RangeStore.remove Ledger.remove
  rw [h.contains_load]
  cases hholds : ledger.holds range value with
  | true =>
    rw [if_pos rfl, if_pos rfl]
    refine ⟨rfl, ?_⟩
    have herase : (ledger.valuesOf range).erase value
        = (ledger.valuesOf range).filter (· != value) :=
      (h.distinct_valuesOf range).erase_eq value
    have hrows := h.changeRow_eq hholds fun values => values.erase value
    rw [herase] at hrows
    refine h.change hrows ?_ (h.holders.erase ?_)
    · exact (h.distinct_valuesOf range).filter _
    · refine Ledger.holds_eq_of_rows h.sound hrows (fun v => ?_) fun other hother v => ?_
      · rw [contains_filter_bne, beq_self_eq_true, Bool.true_and, Ledger.holds]
      · rw [hother, Bool.false_and, Bool.not_false, Bool.and_true]
  | false =>
    rw [if_neg Bool.false_ne_true, if_neg Bool.false_ne_true]
    exact ⟨rfl, h⟩

/-- **A range gets a value in the place of another.** The cases are those of the
ledger: nothing to replace, a new value that is there already, and one that is
not. -/
theorem replace (h : Follows store ledger) (range : CellRange) (new old : V) :
    (store.replace range new old).answer = (ledger.replace range new old).1 ∧
      Follows (store.replace range new old).store (ledger.replace range new old).2 := by
  unfold RangeStore.replace Ledger.replace
  rw [h.holders.contains_rangesOf, h.contains_load, h.contains_loadByEnd,
    Bool.and_self, Bool.and_self, bne]
  cases hne : new == old with
  | true => exact ⟨rfl, h⟩
  | false =>
    cases hold : ledger.holds range old with
    | false => exact ⟨rfl, h⟩
    | true =>
      cases hnew : ledger.holds range new with
      | true =>
        refine ⟨rfl, ?_⟩
        -- the new value is there already, so the old one just goes and nothing is received
        have hswap : swap new old (ledger.valuesOf range)
            = (ledger.valuesOf range).filter (· != old) := if_pos hnew
        have hrows := h.changeRow_eq hold fun values => values.erase old
        rw [(h.distinct_valuesOf range).erase_eq old, ← hswap] at hrows
        have hlose : ∀ other v, Ledger.holds { ledger with
              rows := changeRow range (fun values => values.erase old) ledger.rows } other v
            = (ledger.holds other v && !(other == range && v == old)) := by
          refine Ledger.holds_eq_of_rows h.sound hrows (fun v => ?_) fun other hother v => ?_
          · rw [hswap, contains_filter_bne, beq_self_eq_true, Bool.true_and, Ledger.holds]
          · rw [hother, Bool.false_and, Bool.not_false, Bool.and_true]
        refine h.change hrows ?_ ((h.holders.erase hlose).insert_again ?_)
        · rw [hswap]
          exact (h.distinct_valuesOf range).filter _
        · rw [hlose, hnew, hne, Bool.and_false]
          rfl
      | false =>
        refine ⟨rfl, ?_⟩
        have hnew' : (ledger.valuesOf range).contains new = false := hnew
        have hswap : swap new old (ledger.valuesOf range)
            = (ledger.valuesOf range).replace old new := by
          rw [swap, hnew', if_neg Bool.false_ne_true]
        have hrows := h.changeRow_eq hold fun values => values.replace old new
        rw [← hswap] at hrows
        refine h.change hrows ?_ ((h.holders.erase fun other v => rfl).insert ?_ ?_)
        · rw [hswap]
          exact (h.distinct_valuesOf range).replace hnew'
        · intro v hv
          rw [holds_congr ledger range hv, hnew]
          rfl
        · refine Ledger.holds_eq_of_rows h.sound hrows (fun v => ?_) fun other hother v => ?_
          · rw [hswap, (h.distinct_valuesOf range).contains_replace hold,
              beq_self_eq_true, Bool.true_and, Bool.true_and, Ledger.holds]
          · rw [hother, Bool.false_and, Bool.not_false, Bool.and_true, Bool.false_and,
              Bool.or_false]

/-- **A range loses all its values**, and both sides answer what they were. -/
theorem delete (h : Follows store ledger) (range : CellRange) :
    (store.delete range).answer = (ledger.delete range).1 ∧
      Follows (store.delete range).store (ledger.delete range).2 := by
  have hrows := filter_ne_eq_setValues h.sound.nodup range
  unfold RangeStore.delete Ledger.delete
  rw [h.load_eq]
  cases hvalues : ledger.valuesOf range with
  | nil =>
    refine ⟨rfl, ?_⟩
    -- the range has no row, so the ledger drops none
    have hsame : (ledger.rows.filter fun row => row.range ≠ range) = ledger.rows := by
      refine List.filter_eq_self.2 fun row hrow => ?_
      rw [decide_eq_true_eq]
      rintro rfl
      exact h.sound.mem_iff.1 (List.mem_map_of_mem hrow) hvalues
    rw [hsame]
    exact h
  | cons value values =>
    refine ⟨rfl, h.change hrows Distinct.nil (h.holders.foldl_erase _ ?_)⟩
    refine Ledger.holds_eq_of_rows h.sound hrows (fun v => ?_) fun other hother v => ?_
    · rw [← hvalues, beq_self_eq_true, Bool.true_and, Ledger.holds, Bool.and_not_self]
      rfl
    · rw [hother, Bool.false_and, Bool.not_false, Bool.and_true]

/-- **Each operation is answered alike, and the store goes on following**: the
step lemma, with a case for each operation. -/
theorem step (h : Follows store ledger) (operation : StoreOperation V) :
    (store.step operation).1 = (ledger.step operation).1 ∧
      Follows (store.step operation).2 (ledger.step operation).2 := by
  cases operation with
  | add range value =>
    obtain ⟨hanswer, hfollows⟩ := h.add range value
    exact ⟨congrArg StoreAnswer.changed hanswer, hfollows⟩
  | remove range value =>
    obtain ⟨hanswer, hfollows⟩ := h.remove range value
    exact ⟨congrArg StoreAnswer.changed hanswer, hfollows⟩
  | replace range new old =>
    obtain ⟨hanswer, hfollows⟩ := h.replace range new old
    exact ⟨congrArg StoreAnswer.changed hanswer, hfollows⟩
  | delete range =>
    obtain ⟨hanswer, hfollows⟩ := h.delete range
    exact ⟨congrArg StoreAnswer.deleted hanswer, hfollows⟩

/-! ## A run

The step lemma is carried over a list of operations, with the answers collected
on the way. -/

/-- **A run is answered alike, and the store it leaves follows the ledger it
leaves**, by induction on the operations. -/
theorem run (h : Follows store ledger) (operations : List (StoreOperation V)) :
    (store.run operations).1 = (ledger.run operations).1 ∧
      Follows (store.run operations).2 (ledger.run operations).2 := by
  induction operations generalizing store ledger with
  | nil => exact ⟨rfl, h⟩
  | cons operation operations ih =>
    obtain ⟨hanswer, hfollows⟩ := h.step operation
    obtain ⟨hanswers, hrun⟩ := ih hfollows
    exact ⟨congrArg₂ List.cons hanswer hanswers, hrun⟩

end Follows

/-- **What is done to the empty store is followed by the empty ledger.** Every
statement about stores that can be reached is proved of a store that follows a
ledger, and then applied to this. -/
theorem follows_run [EquivBEq V] [LawfulHashable V] (operations : List (StoreOperation V)) :
    Follows ((RangeStore.empty : RangeStore V).run operations).2
      (Ledger.empty.run operations).2 :=
  (Follows.empty.run operations).2

end RangeStore

end Worksheet
