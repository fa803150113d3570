import Mathlib.Data.List.Dedup
import Worksheet.Proofs.Store.Holders

/-!
# The record of receipts

A store lists the ranges that hold a value in the order in which they got it.
What the order is an order of is a record of receipts: the pairs of a range and
a value it received, the earliest first, which is only ever added to. The ranges
that hold a value stand in the order in which they *last* received it: they are
the ranges of its receipts, each at its last place in the record, as far as they
hold it now (`receivers`).

How that list changes is said by two facts. A range that gets a value comes to
the end of the list of that value (`receivers_gain`), one that loses it goes out
of it (`receivers_lose`), and in either case no other list changes. The file of
a store does the same, so it goes on listing the receivers whatever is done
(`Holders.Files`).
-/

namespace Worksheet

variable {V : Type} [BEq V]

/-- The ranges that hold a value, in the order in which they last received it.
`List.dedup` keeps the last of equal elements, so a range that received the
value anew stands where it did so. -/
def receivers (received : List (CellRange × V)) (holds : CellRange → V → Bool)
    (value : V) : List CellRange :=
  ((received.filter fun receipt => receipt.2 == value).map Prod.fst).dedup.filter
    fun range => holds range value

/-- An element that comes again at the end moves there. -/
theorem dedup_append_singleton {α : Type} [DecidableEq α] (list : List α) (a : α) :
    (list ++ [a]).dedup = list.dedup.filter (· != a) ++ [a] := by
  induction list with
  | nil => rfl
  | cons head list ih =>
    rw [List.cons_append]
    by_cases ha : head = a
    · subst ha
      rw [List.dedup_cons_of_mem (by simp), ih]
      by_cases hmem : head ∈ list
      · rw [List.dedup_cons_of_mem hmem]
      · rw [List.dedup_cons_of_notMem hmem]
        simp
    · by_cases hmem : head ∈ list
      · rw [List.dedup_cons_of_mem (List.mem_append_left _ hmem), ih,
          List.dedup_cons_of_mem hmem]
      · rw [List.dedup_cons_of_notMem (by simp [hmem, ha]), ih,
          List.dedup_cons_of_notMem hmem, List.filter_cons_of_pos (by simpa using ha)]
        rfl

theorem nodup_receivers (received : List (CellRange × V))
    (holds : CellRange → V → Bool) (value : V) :
    (receivers received holds value).Nodup :=
  (List.nodup_dedup _).filter _

theorem holds_of_mem_receivers {received : List (CellRange × V)}
    {holds : CellRange → V → Bool} {range : CellRange} {value : V}
    (h : range ∈ receivers received holds value) : holds range value = true :=
  (List.mem_filter.1 h).2

variable {received : List (CellRange × V)} {holds holds' : CellRange → V → Bool}
  {range : CellRange} {value : V}

/-- **A range that loses a value goes out of the list of that value.** The
record is not changed, only what is held; the other receivers stay in their
order. -/
theorem receivers_lose
    (h : ∀ other v, holds' other v = (holds other v && !(other == range && v == value)))
    (v : V) :
    receivers received holds' v
      = if v == value then (receivers received holds v).filter (· != range)
        else receivers received holds v := by
  unfold receivers
  rw [List.filter_congr fun other _ => h other v]
  cases v == value with
  | true =>
    rw [if_pos rfl, List.filter_filter]
    refine List.filter_congr fun other _ => ?_
    rw [Bool.and_true, Bool.and_comm]
    rfl
  | false => simp

variable [EquivBEq V]

/-- **A range that gets a value comes to the end of the list of that value.** It
may have held the value before, but it must not hold it now, nor any value equal
to it. -/
theorem receivers_gain (hnew : ∀ v, (v == value) = true → holds range v = false)
    (h : ∀ other v, holds' other v = (holds other v || (other == range && v == value)))
    (v : V) :
    receivers (received ++ [(range, value)]) holds' v
      = if v == value then receivers received holds v ++ [range]
        else receivers received holds v := by
  unfold receivers
  rw [List.filter_append, List.map_append, List.filter_congr fun other _ => h other v]
  cases hv : v == value with
  | true =>
    have hlast : [(range, value)].filter (fun receipt => receipt.2 == v)
        = [(range, value)] := by
      rw [List.filter_cons_of_pos (by rw [BEq.comm, hv])]
      rfl
    rw [hlast, if_pos rfl, List.map_singleton, dedup_append_singleton,
      List.filter_append, List.filter_filter]
    -- the range did not hold the value, so its earlier places were not listed
    refine congrArg₂ (· ++ ·) (List.filter_congr fun other _ => ?_) (by simp)
    by_cases hother : other = range
    · subst hother
      simp [hnew v hv]
    · have hne : (other == range) = false := by simpa using hother
      simp [bne, hne]
  | false =>
    have hlast : [(range, value)].filter (fun receipt => receipt.2 == v) = [] := by
      rw [List.filter_cons_of_neg (by rw [BEq.comm, hv]; exact Bool.false_ne_true)]
      rfl
    simp [hlast]

/-! ## The file lists the receivers

A record only grows, and what is held decides who of it counts. A range that
gives a value up and gets it back is therefore listed at its later receipt. -/

namespace Holders

variable [Hashable V]

/-- **A file lists who received what**: under every value stand the ranges that
hold it, in the order in which they last received it. -/
structure Files (holders : Holders V) (received : List (CellRange × V))
    (holds : CellRange → V → Bool) : Prop where
  /-- The file is sound. -/
  sound : Sound holders
  /-- Under a value stand its receivers. -/
  rangesOf_eq : ∀ value, rangesOf holders value = receivers received holds value
  /-- What is held was received. -/
  mem_receivers : ∀ range value, holds range value = true →
    range ∈ receivers received holds value

namespace Files

variable {holders : Holders V}

omit [EquivBEq V] in
theorem nil : Files ([] : Holders V) [] fun _ _ => false where
  sound := Sound.nil
  rangesOf_eq := fun _ => rfl
  mem_receivers := fun _ _ h => absurd h Bool.false_ne_true

omit [EquivBEq V] in
theorem contains_rangesOf (h : Files holders received holds) (range : CellRange)
    (value : V) : (rangesOf holders value).contains range = holds range value := by
  rw [h.rangesOf_eq, List.contains_eq_mem, Bool.eq_iff_iff, decide_eq_true_eq]
  exact ⟨holds_of_mem_receivers, h.mem_receivers range value⟩

variable [LawfulHashable V]

/-- **A range gets a value**: the file and the record take it up together, by
`rangesOf_insert` and `receivers_gain`. -/
theorem insert (h : Files holders received holds)
    (hnew : ∀ v, (v == value) = true → holds range v = false)
    (hholds : ∀ other v,
      holds' other v = (holds other v || (other == range && v == value))) :
    Files (Holders.insert value range holders) (received ++ [(range, value)]) holds' where
  sound := h.sound.insert value range
  rangesOf_eq := fun v => by
    rw [rangesOf_insert, h.contains_rangesOf, hnew value BEq.rfl, Bool.not_false,
      Bool.and_true, h.rangesOf_eq, receivers_gain hnew hholds, BEq.comm]
  mem_receivers := fun other v hheld => by
    rw [receivers_gain hnew hholds]
    rw [hholds, Bool.or_eq_true, Bool.and_eq_true, beq_iff_eq] at hheld
    rcases hheld with hheld | ⟨rfl, hv⟩
    · have hmem := h.mem_receivers other v hheld
      split
      · exact List.mem_append_left _ hmem
      · exact hmem
    · rw [if_pos hv]
      exact List.mem_append_right _ List.mem_cons_self

theorem insert_again (h : Files holders received holds)
    (hheld : holds range value = true) :
    Files (Holders.insert value range holders) received holds where
  sound := h.sound.insert value range
  rangesOf_eq := fun v => by
    rw [rangesOf_insert, h.contains_rangesOf, hheld, Bool.not_true, Bool.and_false,
      if_neg Bool.false_ne_true, h.rangesOf_eq]
  mem_receivers := h.mem_receivers

/-- **A range loses a value.** The file takes the range out, and nothing is
recorded. -/
theorem erase (h : Files holders received holds)
    (hholds : ∀ other v,
      holds' other v = (holds other v && !(other == range && v == value))) :
    Files (Holders.erase value range holders) received holds' where
  sound := h.sound.erase value range
  rangesOf_eq := fun v => by
    rw [rangesOf_erase h.sound.distinct, h.rangesOf_eq, receivers_lose hholds, BEq.comm]
  mem_receivers := fun other v hheld => by
    rw [receivers_lose hholds]
    rw [hholds, Bool.and_eq_true] at hheld
    have hmem := h.mem_receivers other v hheld.1
    split
    · rename_i hv
      refine List.mem_filter.2 ⟨hmem, ?_⟩
      simpa [hv] using hheld.2
    · exact hmem

/-- A range loses several values, one after the other, as when it is deleted. -/
theorem foldl_erase (h : Files holders received holds) (values : List V)
    (hholds : ∀ other v,
      holds' other v = (holds other v && !(other == range && values.contains v))) :
    Files (values.foldl (fun holders value => Holders.erase value range holders) holders)
      received holds' := by
  induction values generalizing holders holds with
  | nil =>
    have heq : holds' = holds := funext fun other => funext fun v => by
      simpa using hholds other v
    rw [heq]
    exact h
  | cons value values ih =>
    refine ih (h.erase fun other v => rfl) fun other v => ?_
    rw [hholds, List.contains_cons]
    cases other == range <;> cases v == value <;> simp

end Files

end Holders

end Worksheet
