import Mathlib.Data.List.Infix
import Worksheet.Proofs.Store.Calls

/-!
# Who is told what, and when

What comes of a call is settled by the calls before it. The ledger of the
operations among them says which ranges are stored; and a watcher is looking on
when it was registered in their course and not removed by a later one of them
(`watchersAfter`). A deletion is then told to all who are looking on, if the
range is stored, and nothing else is told to anyone (`StoreCall.notices`).

A store keeps no such history. What it keeps agrees with it after every call
(`RangeStore.Reached.call`), so each call of a run is answered and told as the
calls before it have it (`RangeStore.perform_outcomes`).
-/

namespace Worksheet

variable {V : Type}

/-! ## What calls lead to -/

def StoreCall.registers : StoreCall V → Bool
  | .watch => true
  | .operate _ | .unwatch _ => false

def StoreCall.removes (watcher : Nat) : StoreCall V → Bool
  | .unwatch removed => removed == watcher
  | .operate _ | .watch => false

/-- How many watchers are registered in the course of some calls. It is also the
number of the next watcher, since numbers are not given again. -/
def registrations (calls : List (StoreCall V)) : Nat :=
  calls.countP StoreCall.registers

theorem registrations_cons_watch (calls : List (StoreCall V)) :
    registrations (.watch :: calls) = registrations calls + 1 :=
  List.countP_cons_of_pos rfl

theorem registrations_append (first second : List (StoreCall V)) :
    registrations (first ++ second) = registrations first + registrations second :=
  List.countP_append

/-- The watchers that some calls register and none of them removes later, in the
order of registration. Numbers are counted up from a first one. -/
def watchersFrom (number : Nat) : List (StoreCall V) → List Nat
  | [] => []
  | .watch :: calls =>
    if calls.any (StoreCall.removes number) then watchersFrom (number + 1) calls
    else number :: watchersFrom (number + 1) calls
  | .operate _ :: calls | .unwatch _ :: calls => watchersFrom number calls

/-- The watchers that are looking on after all calls so far. -/
def watchersAfter (calls : List (StoreCall V)) : List Nat :=
  watchersFrom 0 calls

theorem watchersFrom_append_watch (number : Nat) (calls : List (StoreCall V)) :
    watchersFrom number (calls ++ [.watch])
      = watchersFrom number calls ++ [number + registrations calls] := by
  induction calls generalizing number with
  | nil => rfl
  | cons call calls ih =>
    cases call with
    | watch =>
      have hnumber : number + registrations (.watch :: calls)
          = number + 1 + registrations calls := by
        rw [registrations_cons_watch]
        omega
      rw [List.cons_append, watchersFrom, watchersFrom, List.any_append, ih, hnumber]
      cases calls.any (StoreCall.removes number) <;> rfl
    | operate _ => exact ih number
    | unwatch _ => exact ih number

theorem watchersFrom_append_unwatch (number : Nat) (calls : List (StoreCall V))
    (watcher : Nat) :
    watchersFrom number (calls ++ [.unwatch watcher])
      = (watchersFrom number calls).filter (· != watcher) := by
  induction calls generalizing number with
  | nil => rfl
  | cons call calls ih =>
    cases call with
    | watch =>
      have hlast : ([.unwatch watcher] : List (StoreCall V)).any (StoreCall.removes number)
          = (watcher == number) := Bool.or_false _
      rw [List.cons_append, watchersFrom, watchersFrom, List.any_append, ih, hlast]
      cases calls.any (StoreCall.removes number) with
      | true => rfl
      | false =>
        rw [Bool.false_or, if_neg Bool.false_ne_true, List.filter_cons, bne, BEq.comm]
        cases number == watcher <;> rfl
    | operate _ => exact ih number
    | unwatch _ => exact ih number

theorem watchersFrom_append_operate (number : Nat) (calls : List (StoreCall V))
    (operation : StoreOperation V) :
    watchersFrom number (calls ++ [.operate operation]) = watchersFrom number calls := by
  induction calls generalizing number with
  | nil => rfl
  | cons call calls ih =>
    cases call with
    | watch =>
      rw [List.cons_append, watchersFrom, watchersFrom, List.any_append, ih]
      cases calls.any (StoreCall.removes number) <;> rfl
    | operate _ => exact ih number
    | unwatch _ => exact ih number

variable [BEq V]

/-- The ledger of the operations among some calls. A run of a store has no such
thing: it is computed from the calls. -/
def ledgerAfter (calls : List (StoreCall V)) : Ledger V :=
  (Ledger.empty.run (calls.filterMap StoreCall.operation?)).2

namespace StoreCall

/-- What is told in the course of a call: the deletion of a range that is stored
by then, to every watcher that is looking on. Taking the last value out of a
range is not told, although the range is gone by it. -/
def notices (before : List (StoreCall V)) : StoreCall V → List (Notice CellRange)
  | .operate (.delete range) =>
    if range ∈ (ledgerAfter before).rows.map RangeEntry.range then
      (watchersAfter before).map fun watcher => ⟨watcher, range⟩
    else []
  | .operate (.add _ _) | .operate (.remove _ _) | .operate (.replace _ _ _) => []
  | .watch | .unwatch _ => []

/-- What comes back from a call: a new watcher gets the next number, and to be
removed a watcher has to be looking on. -/
def answer (before : List (StoreCall V)) : StoreCall V → CallAnswer V
  | .operate operation => .operated ((ledgerAfter before).step operation).1
  | .watch => .watching (registrations before)
  | .unwatch watcher => .unwatched (decide (watcher ∈ watchersAfter before))

end StoreCall

def CallOutcome.number? (outcome : CallOutcome V) : Option Nat :=
  match outcome.answer with
  | .watching watcher => some watcher
  | .operated _ | .unwatched _ => none

/-! ## What a store keeps -/

variable [Hashable V]

namespace RangeStore

/-- **Calls have led to a store**: it follows their ledger and has their
watchers. It is the invariant of a run of calls. -/
structure Reached (before : List (StoreCall V)) (store : RangeStore V) : Prop where
  /-- The indices are those of the operations. -/
  follows : Follows store (ledgerAfter before)
  /-- The watchers are those that are looking on. -/
  registered_eq : store.watchers.registered = watchersAfter before
  /-- The next number is that of registrations so far. -/
  next_eq : store.watchers.next = registrations before

theorem Reached.empty : Reached [] (RangeStore.empty : RangeStore V) :=
  ⟨Follows.empty, rfl, rfl⟩

/-- An operation leaves the watchers alone. -/
theorem watchers_operate (store : RangeStore V) (operation : StoreOperation V) :
    (store.operate operation).store.watchers = store.watchers := by
  cases operation with
  | add range value =>
    change (store.add range value).store.watchers = _
    unfold add
    split <;> rfl
  | remove range value =>
    change (store.remove range value).store.watchers = _
    unfold remove
    split <;> rfl
  | replace range new old =>
    change (store.replace range new old).store.watchers = _
    unfold replace
    split
    · rfl
    · split <;> rfl
  | delete range =>
    change (store.delete range).store.watchers = _
    unfold delete
    dsimp only
    split <;> rfl

/-- A value that is added to a range is told to nobody. -/
theorem notices_add (store : RangeStore V) (range : CellRange) (value : V) :
    (store.add range value).notices = [] := by
  unfold add
  split <;> rfl

/-- A value that is removed from a range is told to nobody, even if it is the
last one there: only a deletion by name is told. -/
theorem notices_remove (store : RangeStore V) (range : CellRange) (value : V) :
    (store.remove range value).notices = [] := by
  unfold remove
  split <;> rfl

theorem notices_replace (store : RangeStore V) (range : CellRange) (new old : V) :
    (store.replace range new old).notices = [] := by
  unfold replace
  split
  · rfl
  · split <;> rfl

theorem notices_delete (store : RangeStore V) (range : CellRange) :
    (store.delete range).notices
      = if (store.load range).isEmpty then [] else store.watchers.notices range := by
  unfold delete
  dsimp only
  split <;> rfl

variable [EquivBEq V] [LawfulHashable V] {store : RangeStore V}
  {before : List (StoreCall V)}

/-- **One more call leads on**: whatever the call is, the store after it has
been reached by the calls with it at their end. -/
theorem Reached.call (h : Reached before store) (call : StoreCall V) :
    Reached (before ++ [call]) (store.call call).store where
  follows := by
    have hcall := h.follows.call call
    rw [ledgerAfter, ← Ledger.run_append] at hcall
    rw [ledgerAfter, List.filterMap_append]
    cases call <;> exact hcall
  registered_eq := by
    cases call with
    | operate operation =>
      rw [watchersAfter, watchersFrom_append_operate, ← watchersAfter, ← h.registered_eq]
      exact congrArg Watchers.registered (watchers_operate store operation)
    | watch =>
      rw [watchersAfter, watchersFrom_append_watch, Nat.zero_add, ← watchersAfter,
        ← h.registered_eq, ← h.next_eq]
      rfl
    | unwatch watcher =>
      rw [watchersAfter, watchersFrom_append_unwatch, ← watchersAfter, ← h.registered_eq]
      rfl
  next_eq := by
    rw [registrations_append, ← h.next_eq]
    cases call with
    | operate operation => exact congrArg Watchers.next (watchers_operate store operation)
    | watch => rfl
    | unwatch watcher => rfl

omit [EquivBEq V] [LawfulHashable V] in
/-- **A call is told as the calls before it have it.** The store decides by its
indices and its list of watchers, the right-hand side by the history. -/
theorem Reached.notices_eq (h : Reached before store) (call : StoreCall V) :
    (store.call call).notices = call.notices before := by
  cases call with
  | watch => rfl
  | unwatch watcher => rfl
  | operate operation =>
    cases operation with
    | add range value => exact notices_add store range value
    | remove range value => exact notices_remove store range value
    | replace range new old => exact notices_replace store range new old
    | delete range =>
      have hstored : range ∈ (ledgerAfter before).rows.map RangeEntry.range
          ↔ store.load range ≠ [] := by
        rw [h.follows.load_eq, h.follows.sound.mem_iff]
        rfl
      refine (notices_delete store range).trans ?_
      rw [StoreCall.notices]
      cases hvalues : store.load range with
      | nil =>
        rw [if_neg fun hmem => hstored.1 hmem hvalues]
        rfl
      | cons value values =>
        rw [if_pos (hstored.2 (by rw [hvalues]; exact List.cons_ne_nil _ _)),
          ← h.registered_eq]
        rfl

theorem Reached.answer_eq (h : Reached before store) (call : StoreCall V) :
    (store.call call).answer = call.answer before := by
  cases call with
  | operate operation => exact congrArg CallAnswer.operated (h.follows.step operation).1
  | watch => exact congrArg CallAnswer.watching h.next_eq
  | unwatch watcher =>
    change CallAnswer.unwatched (store.watchers.registered.contains watcher) = _
    rw [h.registered_eq, List.contains_eq_mem]
    rfl

/-! ## A run -/

/-- **What comes of more calls**, one by one. The calls before each are an
initial segment (`List.inits`) of all of them, so the whole run is said without
a store. -/
theorem Reached.perform_eq (h : Reached before store) (calls : List (StoreCall V)) :
    (store.perform calls).1 = (calls.inits.zip calls).map fun moment =>
      ⟨moment.2.answer (before ++ moment.1), moment.2.notices (before ++ moment.1)⟩ := by
  induction calls generalizing before store with
  | nil => rfl
  | cons call calls ih =>
    have houtcome : CallOutcome.mk (store.call call).answer (store.call call).notices
        = ⟨call.answer before, call.notices before⟩ := by
      rw [h.answer_eq, h.notices_eq]
    have hrest := ih (h.call call)
    rw [List.inits_cons, List.zip_cons_cons, List.map_cons, List.zip_map_left, List.map_map,
      List.append_nil, ← houtcome]
    refine congrArg (List.cons _) (hrest.trans (List.map_congr_left fun moment _ => ?_))
    simp only [Function.comp_apply, Prod.map, id_eq, List.append_assoc, List.singleton_append]

/-- **Numbers are counted up** from that of registrations so far. -/
theorem Reached.numbers_eq (h : Reached before store) (calls : List (StoreCall V)) :
    (store.perform calls).1.filterMap CallOutcome.number?
      = List.range' (registrations before) (registrations calls) := by
  induction calls generalizing before store with
  | nil => rfl
  | cons call calls ih =>
    have hrest := ih (h.call call)
    rw [registrations_append] at hrest
    rw [perform, List.filterMap_cons, CallOutcome.number?, h.answer_eq]
    cases call with
    | operate operation => exact hrest
    | watch =>
      rw [registrations_cons_watch, List.range'_succ]
      exact congrArg (List.cons _) hrest
    | unwatch watcher => exact hrest

/-- **The whole course of a run is settled by its calls**: each is answered, and
told to watchers, as the calls before it have it, so what is told in all is what
the deletions of stored ranges tell, one after the other. The watchers' numbers
are those from zero up, in the order of registration; no two are equal. -/
theorem perform_outcomes (calls : List (StoreCall V)) :
    let outcomes := ((RangeStore.empty : RangeStore V).perform calls).1
    let moments := calls.inits.zip calls
    outcomes = moments.map (fun (before, call) => ⟨call.answer before, call.notices before⟩)
      ∧ outcomes.flatMap CallOutcome.notices
        = moments.flatMap (fun (before, call) => call.notices before)
      ∧ outcomes.filterMap CallOutcome.number? = List.range (registrations calls)
      ∧ (outcomes.filterMap CallOutcome.number?).Nodup := by
  intro outcomes moments
  have houtcomes : outcomes
      = moments.map fun (before, call) => ⟨call.answer before, call.notices before⟩ :=
    Reached.empty.perform_eq calls
  have hnumbers : outcomes.filterMap CallOutcome.number? = List.range (registrations calls) := by
    rw [List.range_eq_range']
    exact Reached.empty.numbers_eq calls
  refine ⟨houtcomes, ?_, hnumbers, ?_⟩
  · rw [houtcomes, List.flatMap_map]
  · rw [hnumbers]
    exact List.nodup_range

/-- Of two watchers one is removed before a range is deleted; it is deleted
again when it is gone, and once more when a value has come and gone. -/
theorem outcomes_watched :
    let range := CellRange.single ⟨⟨0, .relative⟩, ⟨0, .relative⟩⟩
    let calls : List (StoreCall Nat) :=
      [.watch, .watch, .operate (.add range 7), .unwatch 0, .operate (.delete range),
        .operate (.delete range), .operate (.add range 8), .operate (.remove range 8),
        .operate (.delete range), .unwatch 0]
    let outcomes := ((RangeStore.empty : RangeStore Nat).perform calls).1
    (calls.inits.zip calls).flatMap (fun (before, call) => call.notices before) = [⟨1, range⟩]
      ∧ outcomes.flatMap CallOutcome.notices = [⟨1, range⟩]
      ∧ (outcomes.filterMap CallOutcome.number?).Nodup := by
  intro range calls outcomes
  obtain ⟨-, hnotices, -, hnumbers⟩ := perform_outcomes calls
  have htold : (calls.inits.zip calls).flatMap (fun (before, call) => call.notices before)
      = [⟨1, range⟩] := by decide
  exact ⟨htold, hnotices.trans htold, hnumbers⟩

end RangeStore

end Worksheet
