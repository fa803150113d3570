/-!
# Watchers

Watchers are told about events. Each is known by the number it got when it was
registered, and numbers are never given twice. An event is told to all of them,
in the order in which they were registered.
-/

namespace Worksheet

/-- The watchers of some kind of event. -/
structure Watchers where
  /-- The numbers of the watchers, in the order in which they were registered. -/
  registered : List Nat
  /-- The number the next watcher gets. -/
  next : Nat

/-- An event as one watcher is told about it. -/
structure Notice (α : Type) where
  /-- The number of the watcher. -/
  watcher : Nat
  /-- What it is told. -/
  event : α
  deriving DecidableEq

namespace Watchers

/-- No watchers. -/
def empty : Watchers :=
  ⟨[], 0⟩

/-- The number of a new watcher, and the watchers with it. The number is one
that `remove` has never seen. -/
def add (watchers : Watchers) : Nat × Watchers :=
  (watchers.next, ⟨watchers.registered ++ [watchers.next], watchers.next + 1⟩)

/-- Whether there was a watcher with a number, and the watchers without it. -/
def remove (watchers : Watchers) (watcher : Nat) : Bool × Watchers :=
  (watchers.registered.contains watcher,
    { watchers with registered := watchers.registered.filter (· != watcher) })

/-- What the watchers are told about an event. -/
def notices (watchers : Watchers) (event : α) : List (Notice α) :=
  watchers.registered.map fun watcher => ⟨watcher, event⟩

/-- How many watchers there are. -/
def size (watchers : Watchers) : Nat :=
  watchers.registered.length

end Watchers

end Worksheet
