import Worksheet.Proofs.Store.Calls

/-!
# Replacing a value is all or nothing

A replacement looks the old value up in three places, under both corners of the
range and among the ranges with the value, and then edits all three. In a store
that calls have led to, the three lookups are one, so the replacement is made
exactly when the range holds the old value and the new one is another
(`RangeStore.Follows.replace_eq`). Otherwise the store is the same as before.

When it is made, only the range and the two values are concerned
(`RangeStore.Replaced`): the old value is out of the range, the new one is in it
once, whether or not it was there already, and all else is where it was.
-/

namespace Worksheet

namespace RangeStore

/-! ## Swapping two values in a list

The new value takes the place of the old one unless it is in the list already.
Either way the list stays without repetition. -/

variable {V : Type} [BEq V] [EquivBEq V] {values : List V} {new old : V}

/-- **The old value is out of the swapped values and the new one is in**; others
are in when they were. There are two cases, as `swap` puts the new value in the
place of the old one only if it is not there. -/
theorem contains_swap (h : Distinct values) (hold : values.contains old = true)
    (hne : (new == old) = false) (value : V) :
    (swap new old values).contains value
      = ((values.contains value && !(value == old)) || value == new) := by
  unfold swap
  cases hnew : values.contains new with
  | false =>
    rw [if_neg Bool.false_ne_true]
    exact h.contains_replace hold value
  | true =>
    rw [if_pos rfl, contains_filter_bne]
    cases hvalue : value == new with
    | false => rw [Bool.or_false]
    | true =>
      rw [contains_congr values hvalue, hnew, BEq.congr_left hvalue, hne]
      rfl

theorem distinct_swap (h : Distinct values) : Distinct (swap new old values) := by
  unfold swap
  cases hnew : values.contains new with
  | false => exact h.replace hnew
  | true => exact h.filter _

/-- **Values that are neither the old nor the new one stay**, in their order. -/
theorem filter_swap (new old : V) (values : List V) :
    (swap new old values).filter (fun value => value != old && value != new)
      = values.filter fun value => value != old && value != new := by
  unfold swap
  split
  · rw [List.filter_filter]
    refine List.filter_congr fun value _ => ?_
    cases value != old <;> cases value != new <;> rfl
  · refine filter_replace ?_ (fun value hvalue => ?_) values
    · rw [bne, bne, BEq.rfl, Bool.not_true, Bool.and_false]
    · rw [bne, BEq.comm, hvalue]
      rfl

/-! ## A replacement

That nothing is changed otherwise is part of the statement: each field of
`Replaced` speaks of all ranges, or of all values, and not only of those that
are replaced. -/

variable [Hashable V]

/-- **A value of a range was replaced**, and nothing else was touched. The
fields go through all that can be seen of a store: both corners, the ranges with
a value, and the watchers. -/
structure Replaced (store after : RangeStore V) (range : CellRange) (new old : V) :
    Prop where
  /-- Other ranges have their values, under both corners. -/
  others_eq : ∀ other, other ≠ range →
    after.load other = store.load other ∧ after.loadByEnd other = store.loadByEnd other
  /-- Both corners have the same values for the range. -/
  corners_eq : after.loadByEnd range = after.load range
  /-- The old value is gone. -/
  old_gone : (after.load range).contains old = false
  /-- The new value is there once. -/
  new_once : (after.load range).countP (· == new) = 1
  /-- All other values are there as before. -/
  rest_eq : (after.load range).filter (fun value => value != old && value != new)
    = (store.load range).filter fun value => value != old && value != new
  /-- Other values have their ranges. -/
  rangesWith_eq : ∀ value, (value == old) = false → (value == new) = false →
    after.rangesWith value = store.rangesWith value
  /-- The range is not among those with the old value. -/
  rangesWith_old : after.rangesWith old = (store.rangesWith old).filter (· != range)
  /-- It is among those with the new one: at the end, if it was not there. -/
  rangesWith_new : after.rangesWith new
    = if (store.load range).contains new then store.rangesWith new
      else store.rangesWith new ++ [range]
  /-- The watchers are the same. -/
  watchers_eq : after.watchers = store.watchers

variable [LawfulHashable V] {store : RangeStore V} {ledger : Ledger V}

omit [EquivBEq V] [LawfulHashable V] in
/-- **The three lookups of a replacement are one.** All three ask whether the
range holds the old value, each in an index of its own, and the indices agree. -/
theorem Follows.replace_eq (h : Follows store ledger) (range : CellRange) (new old : V) :
    store.replace range new old
      = if !(new == old) && (store.load range).contains old then
          ⟨true, [], { store.change range (swap new old) with
            holders := (store.holders.erase old range).insert new range }⟩
        else ⟨false, [], store⟩ := by
  unfold RangeStore.replace
  rw [h.holders.contains_rangesOf, h.contains_loadByEnd, ← h.contains_load, Bool.and_self,
    Bool.and_self]
  cases new == old <;> rfl

/-- **What a replacement that is made leaves.** The fields on values are those
of `swap`, those on ranges are `rangesOf_erase` and `rangesOf_insert`. -/
theorem Follows.replaced (h : Follows store ledger) {range : CellRange}
    (hne : (new == old) = false) (hold : (store.load range).contains old = true) :
    Replaced store { store.change range (swap new old) with
      holders := (store.holders.erase old range).insert new range } range new old := by
  have hdistinct : Distinct (store.load range) := by
    rw [h.load_eq]
    exact h.distinct_valuesOf range
  have hload : (store.change range (swap new old)).load range
      = swap new old (store.load range) := by rw [h.load_change, if_pos rfl]
  have hnew : (store.holders.rangesOf new).contains range = (store.load range).contains new := by
    rw [h.holders.contains_rangesOf, h.contains_load]
  -- the range leaves the old value's list before it joins the new one's, and
  -- the two values are not equal
  have herase : ∀ value, (store.holders.erase old range).rangesOf value
      = if old == value then (store.holders.rangesOf value).filter (· != range)
        else store.holders.rangesOf value :=
    Holders.rangesOf_erase h.holders.sound.distinct old range
  have hother : (old == new) = false := by rw [BEq.comm, hne]
  refine ⟨fun other hrange => ?_, ?_, ?_, ?_, ?_, fun value hvalue hvalue' => ?_, ?_, ?_, rfl⟩
  · exact ⟨(h.load_change range _ other).trans (if_neg (Ne.symm hrange)),
      (h.loadByEnd_change range _ other).trans (if_neg (Ne.symm hrange))⟩
  · refine (h.loadByEnd_change range _ range).trans ?_
    rw [if_pos rfl, h.loadByEnd_eq, ← h.load_eq]
    exact hload.symm
  · refine (congrArg (List.contains · old) hload).trans ?_
    rw [contains_swap hdistinct hold hne, BEq.rfl, Bool.not_true, Bool.and_false, hother]
    rfl
  · refine (congrArg (List.countP (· == new)) hload).trans
      ((distinct_swap hdistinct).countP_beq ?_)
    rw [contains_swap hdistinct hold hne, BEq.rfl, Bool.or_true]
  · exact (congrArg (List.filter _) hload).trans (filter_swap new old _)
  · refine (Holders.rangesOf_insert _ new range value).trans ?_
    rw [BEq.comm, hvalue', Bool.false_and, if_neg Bool.false_ne_true, herase, BEq.comm, hvalue,
      if_neg Bool.false_ne_true]
    rfl
  · refine (Holders.rangesOf_insert _ new range old).trans ?_
    rw [hne, Bool.false_and, if_neg Bool.false_ne_true, herase, BEq.rfl, if_pos rfl]
    rfl
  · refine (Holders.rangesOf_insert _ new range new).trans ?_
    rw [herase, hother, if_neg Bool.false_ne_true, hnew, BEq.rfl, Bool.true_and]
    cases (store.load range).contains new <;> rfl

/-- **Replacing a value is all or nothing**, in every store that calls have led
to: it is done exactly when the range holds the old value and the new one is
another; when it is not done the store is as it was; when it is done only the
range and the two values are concerned (`Replaced`). In no case is anyone told. -/
theorem replace_all_or_nothing (calls : List (StoreCall V)) (range : CellRange) (new old : V) :
    let store := ((RangeStore.empty : RangeStore V).perform calls).2
    let outcome := store.replace range new old
    (outcome.answer = true ↔ (new == old) = false ∧ (store.load range).contains old = true)
      ∧ (outcome.answer = false → outcome.store = store)
      ∧ (outcome.answer = true → Replaced store outcome.store range new old)
      ∧ outcome.notices = [] := by
  intro store outcome
  have h : Follows store _ := Follows.empty.perform calls
  have houtcome : outcome = _ := h.replace_eq range new old
  rw [houtcome]
  cases hne : new == old with
  | true => exact ⟨by simp, fun _ => rfl, nofun, rfl⟩
  | false =>
    cases hold : (store.load range).contains old with
    | false => exact ⟨by simp, fun _ => rfl, nofun, rfl⟩
    | true => exact ⟨by simp, nofun, fun _ => h.replaced hne hold, rfl⟩

/-- A value that is replaced by one the range has already, while another range
holds both and a watcher looks on. -/
theorem replaced_merge :
    let one := CellRange.single ⟨⟨0, .relative⟩, ⟨0, .relative⟩⟩
    let other := CellRange.single ⟨⟨1, .relative⟩, ⟨0, .relative⟩⟩
    let store := ((RangeStore.empty : RangeStore Nat).perform
      [.watch, .operate (.add one 7), .operate (.add one 8), .operate (.add other 7),
        .operate (.add other 8)]).2
    (store.replace one 8 7).answer = true ∧
      Replaced store (store.replace one 8 7).store one 8 7 := by
  intro one other store
  have hdone : (store.replace one 8 7).answer = true := by decide
  obtain ⟨-, -, hreplaced, -⟩ := replace_all_or_nothing
    [.watch, .operate (.add one 7), .operate (.add one 8), .operate (.add other 7),
      .operate (.add other 8)] one 8 7
  exact ⟨hdone, hreplaced hdone⟩

end RangeStore

end Worksheet
