import Worksheet.Proofs.Store.Run

/-!
# Calls of a store

Besides the operations on its values a store is asked to register watchers and
to remove them. A `StoreCall` is any of these, and a `CallOutcome` is what comes
of it: the answer, and what watchers are told meanwhile. `RangeStore.call` makes
one call and `RangeStore.perform` one after another. Nothing is added to what
the operations do: each of them gives its answer and its notices itself
(`RangeStore.Outcome`), and a call only says which of them it is.

Watchers and values do not meet in the indices. A store that calls have led to
follows the ledger of the operations among them, as if there had been no others
(`RangeStore.Follows.perform`). So what is proved of runs of operations holds of
runs of calls, and who is told what can be studied apart
(`Worksheet.Proofs.Store.Notices`).
-/

namespace Worksheet

/-- Whatever can be done to a store: an operation on its values, or a change of
its watchers. -/
inductive StoreCall (V : Type) where
  /-- An operation on its values. -/
  | operate (operation : StoreOperation V)
  /-- A watcher is registered. -/
  | watch
  /-- The watcher with a number is removed. -/
  | unwatch (watcher : Nat)
  deriving DecidableEq, Repr

/-- What comes back from a call, one constructor for each kind of `StoreCall`. -/
inductive CallAnswer (V : Type) where
  /-- What the operation answers. -/
  | operated (answer : StoreAnswer V)
  /-- The number of the new watcher. -/
  | watching (watcher : Nat)
  /-- Whether there was such a watcher. -/
  | unwatched (found : Bool)
  deriving DecidableEq, Repr

/-- What comes of a call for whoever made it and for the watchers. The store
after it is not part of it. -/
structure CallOutcome (V : Type) where
  /-- What comes back. -/
  answer : CallAnswer V
  /-- What watchers are told meanwhile. -/
  notices : List (Notice CellRange)
  deriving DecidableEq

/-- The operation of a call, if it is one. A run of calls has the ledger of the
operations that are left by it. -/
def StoreCall.operation? {V : Type} : StoreCall V → Option (StoreOperation V)
  | .operate operation => some operation
  | .watch | .unwatch _ => none

variable {V : Type} [BEq V]

/-- A ledger is run through two lists of operations one after the other. It is
needed because one more call comes at the end of those before it, while a run is
defined from its first operation on. -/
theorem Ledger.run_append (ledger : Ledger V) (first second : List (StoreOperation V)) :
    (ledger.run (first ++ second)).2 = ((ledger.run first).2.run second).2 := by
  induction first generalizing ledger with
  | nil => rfl
  | cons operation first ih => exact ih _

variable [Hashable V]

namespace RangeStore

/-- What comes of a call: of the operation that it is, or of registering or
removing a watcher. The answer is labelled by `Outcome.map`; notices and store
are those of the operation. -/
def call (store : RangeStore V) : StoreCall V → Outcome V (CallAnswer V)
  | .operate operation => (store.operate operation).map .operated
  | .watch => store.watch.map .watching
  | .unwatch watcher => (store.unwatch watcher).map .unwatched

/-- What comes of calls one after another, and the store after all of them. -/
def perform (store : RangeStore V) : List (StoreCall V) → List (CallOutcome V) × RangeStore V
  | [] => ([], store)
  | call :: calls =>
    let ⟨answer, notices, store⟩ := store.call call
    let (outcomes, store) := store.perform calls
    (⟨answer, notices⟩ :: outcomes, store)

variable [EquivBEq V] [LawfulHashable V] {store : RangeStore V} {ledger : Ledger V}

/-- **A call leads to a store that follows the ledger after the operation**, if
it is one. Registering and removing watchers leave the three indices as they
are. -/
theorem Follows.call (h : Follows store ledger) (call : StoreCall V) :
    Follows (store.call call).store (ledger.run call.operation?.toList).2 := by
  cases call with
  | operate operation => exact (h.step operation).2
  | watch => exact ⟨h.sound, h.topLeft, h.bottomRight, h.holders⟩
  | unwatch watcher => exact ⟨h.sound, h.topLeft, h.bottomRight, h.holders⟩

/-- **Calls lead to a store that follows the ledger after the operations among
them**, by induction on the calls, with `Follows.call` for each of them. -/
theorem Follows.perform (h : Follows store ledger) (calls : List (StoreCall V)) :
    Follows (store.perform calls).2
      (ledger.run (calls.filterMap StoreCall.operation?)).2 := by
  induction calls generalizing store ledger with
  | nil => exact h
  | cons call calls ih =>
    have hstep := ih (h.call call)
    rw [← Ledger.run_append] at hstep
    cases call <;> exact hstep

end RangeStore

end Worksheet
