import Worksheet.Store.CornerIndex
import Worksheet.Store.Watchers

/-!
# Values of ranges

A range holds values, each once, in the order in which it got them. To find the
ranges that contain a cell, ranges are filed twice, under their first and under
their last corners: a range that contains a cell starts at or before it and ends
at or after it. The two files are gone through from the cell outwards, in turns,
and whichever comes to its end first has seen every range there is to find.

To find the ranges that hold a value, the values are filed as well. There a
value counts as the same as another if it is equal to it and has the same hash.

Whatever is done to a store has an `Outcome`: what is answered, what the
watchers are told meanwhile and the store after it. Watchers are told when a
range is deleted, and of nothing else.
-/

namespace Worksheet

/-- Values, each with the ranges that hold it in the order in which they got
it. -/
abbrev Holders (V : Type) : Type :=
  List (V × List CellRange)

namespace Holders

variable {V : Type} [BEq V] [Hashable V]

/-- Whether two values are filed under one: equal, and of the same hash. Where
the hash is lawful, equal values have the same one. -/
def isSame (a b : V) : Bool :=
  hash a == hash b && a == b

/-- The ranges that hold a value. -/
def rangesOf (holders : Holders V) (value : V) : List CellRange :=
  ((holders.find? fun entry => isSame entry.1 value).map Prod.snd).getD []

/-- The holders with a range for a value. -/
def insert (value : V) (range : CellRange) : Holders V → Holders V
  | [] => [(value, [range])]
  | entry :: holders =>
    if isSame entry.1 value then
      (if entry.2.contains range then entry else (entry.1, entry.2 ++ [range])) :: holders
    else entry :: insert value range holders

/-- The holders without a range for a value. -/
def erase (value : V) (range : CellRange) : Holders V → Holders V
  | [] => []
  | entry :: holders =>
    if isSame entry.1 value then
      let left := entry.2.filter (· != range)
      if left.isEmpty then holders else (entry.1, left) :: holders
    else entry :: erase value range holders

end Holders

/-- Ranges and the values they hold. -/
structure RangeStore (V : Type) where
  /-- Ranges by their first corners. -/
  topLeft : CornerIndex V
  /-- Ranges by their last corners. -/
  bottomRight : CornerIndex V
  /-- Ranges by the values they hold. -/
  holders : Holders V
  /-- Who is told about deleted ranges. -/
  watchers : Watchers

namespace RangeStore

variable {V : Type} [BEq V] [Hashable V]

/-- A store with nothing in it. -/
def empty : RangeStore V :=
  ⟨.empty, .empty, [], .empty⟩

/-- How many ranges hold a value. -/
def size (store : RangeStore V) : Nat :=
  store.topLeft.entries.length

/-- Whether no range holds a value. -/
def isEmpty (store : RangeStore V) : Bool :=
  store.topLeft.corners.isEmpty

/-- The values of a range. -/
def load (store : RangeStore V) (range : CellRange) : List V :=
  store.topLeft.valuesOf range.first range

/-- The values of a range as the other corner has them. -/
def loadByEnd (store : RangeStore V) (range : CellRange) : List V :=
  store.bottomRight.valuesOf range.last range

/-- The store with a change made to the values of a range under both corners.
What each file has is changed by itself, so that they stay alike when they
were. -/
def change (store : RangeStore V) (range : CellRange) (f : List V → List V) : RangeStore V :=
  { store with
    topLeft := store.topLeft.update range.first range (f (store.load range))
    bottomRight := store.bottomRight.update range.last range (f (store.loadByEnd range)) }

/-- **What comes of something done to a store.** -/
structure Outcome (V α : Type) where
  /-- What is answered. -/
  answer : α
  /-- What the watchers are told meanwhile, in the order in which they are told
  it. -/
  notices : List (Notice CellRange)
  /-- The store after it. -/
  store : RangeStore V

/-- A value is added to a range, if it is new there. The answer is whether it
is. -/
def add (store : RangeStore V) (range : CellRange) (value : V) : Outcome V Bool :=
  if (store.load range).contains value then ⟨false, [], store⟩
  else
    ⟨true, [], { store.change range fun values =>
        if values.contains value then values else values ++ [value] with
      holders := store.holders.insert value range }⟩

/-- A value is removed from a range, if it is there. The answer is whether it
is. -/
def remove (store : RangeStore V) (range : CellRange) (value : V) : Outcome V Bool :=
  if (store.load range).contains value then
    ⟨true, [], { store.change range fun values => values.filter (· != value) with
      holders := store.holders.erase value range }⟩
  else ⟨false, [], store⟩

/-- Values with a new one in the place of an old one, which goes without a trace
if the new one is there already. -/
def swap (new old : V) (values : List V) : List V :=
  if values.contains new then values.filter (· != old) else values.replace old new

/-- **A value of a range is replaced by another one.** The answer is whether it
was there, under both corners and among the ranges with the value, and is not
the other one itself. No watcher is told. -/
def replace (store : RangeStore V) (range : CellRange) (new old : V) : Outcome V Bool :=
  if new == old then ⟨false, [], store⟩
  else if (store.holders.rangesOf old).contains range && (store.load range).contains old
      && (store.loadByEnd range).contains old then
    ⟨true, [], { store.change range (swap new old) with
      holders := (store.holders.erase old range).insert new range }⟩
  else ⟨false, [], store⟩

/-- A range is deleted with its values, which are the answer. Nobody is told
about a range that held nothing. -/
def delete (store : RangeStore V) (range : CellRange) : Outcome V (List V) :=
  let values := store.load range
  if values.isEmpty then ⟨[], [], store⟩
  else
    ⟨values, store.watchers.notices range,
      { store.change range fun _ => [] with
        holders := values.foldl (fun holders value => holders.erase value range) store.holders }⟩

/-- A watcher is registered. The answer is its number. -/
def watch (store : RangeStore V) : Outcome V Nat :=
  let (watcher, watchers) := store.watchers.add
  ⟨watcher, [], { store with watchers }⟩

/-- The watcher with a number is removed. The answer is whether there was one. -/
def unwatch (store : RangeStore V) (watcher : Nat) : Outcome V Bool :=
  let (found, watchers) := store.watchers.remove watcher
  ⟨found, [], { store with watchers }⟩

/-- The ranges that hold a value, in the order in which they got it. -/
def rangesWith (store : RangeStore V) (value : V) : List CellRange :=
  store.holders.rangesOf value

/-- Some of the ranges, by their first corners and under one corner in the order
in which they came. -/
def ranges (store : RangeStore V) (start count : Nat) : List CellRange :=
  ((store.topLeft.entries.drop start).take count).map RangeEntry.range

/-- Some of the values, in the order of the ranges that hold them. -/
def values (store : RangeStore V) (start count : Nat) : List V :=
  ((store.topLeft.entries.flatMap RangeEntry.values).drop start).take count

/-- The ranges among some entries that contain a cell. -/
def containing (cell : Cell) (entries : List (RangeEntry V)) : List CellRange :=
  (entries.map RangeEntry.range).filter fun range => range.contains cell

/-- **The ranges that contain a cell**, found by two walks in turns: one from
the cell back over the first corners, one from the cell on over the last
corners. The walk that is through first has found them all. -/
def walk (cell : Cell) : List (List (RangeEntry V)) → List (List (RangeEntry V)) →
    List CellRange → List CellRange → List CellRange
  | [], _, fromStarts, _ => fromStarts
  | _ :: _, [], _, fromEnds => fromEnds
  | starts :: moreStarts, ends :: moreEnds, fromStarts, fromEnds =>
    walk cell moreStarts moreEnds (fromStarts ++ containing cell starts)
      (fromEnds ++ containing cell ends)

/-- The ranges that contain a cell, in order. -/
def rangesAt (store : RangeStore V) (cell : Cell) : List CellRange :=
  let place := cell.toRelative
  let starts := (store.topLeft.corners.filter fun entry => (entry.1.compare place).isLE).reverse
  let ends := store.bottomRight.corners.filter fun entry => (place.compare entry.1).isLE
  (walk place (starts.map Prod.snd) (ends.map Prod.snd) [] []).mergeSort fun a b =>
    (a.compare b).isLE

/-- The values of the ranges that contain a cell, each once. -/
def valuesAt (store : RangeStore V) (cell : Cell) : List V :=
  ((store.rangesAt cell).flatMap store.load).foldl
    (fun found value => if found.contains value then found else found ++ [value]) []

end RangeStore

end Worksheet
