import Worksheet.Reference.Selection

/-!
# Definitions of labels

A label stands for a selection, which may be another label. Labels are found
whatever their case, and keep the spelling under which they were first defined.
A chain of labels is followed until it comes to something else, or to a label it
has gone through before: then it goes round in a circle.
-/

namespace Worksheet

/-- Why a label does not stand for anything but a label. -/
inductive LabelStoreError where
  /-- The label is not defined. -/
  | unknownLabel (label : Label)
  /-- The chain that starts at the label never ends. -/
  | labelCycle (label : Label)
  deriving Repr

/-- The wording of a label error. -/
def LabelStoreError.message : LabelStoreError → String
  | .unknownLabel label => s!"unknown label {String.ofList label.text}"
  | .labelCycle label => s!"label {String.ofList label.text} refers back to itself"

/-- The definitions of labels. -/
structure LabelStore where
  /-- Labels and what they stand for. -/
  entries : List (Label × Selection)

namespace LabelStore

/-- No definitions. -/
def empty : LabelStore :=
  ⟨[]⟩

/-- How many labels are defined. -/
def size (store : LabelStore) : Nat :=
  store.entries.length

/-- What a label stands for. -/
def load? (store : LabelStore) (label : Label) : Option Selection :=
  (store.entries.find? fun entry => entry.1 == label).map Prod.snd

/-- Definitions with a target for a label; the label keeps its place and its
spelling if it has them. -/
def define (label : Label) (target : Selection) :
    List (Label × Selection) → List (Label × Selection)
  | [] => [(label, target)]
  | entry :: entries =>
    if entry.1 == label then (entry.1, target) :: entries
    else entry :: define label target entries

/-- What a label stood for, and the definitions with its new target. A label
must not stand for itself; a longer circle is found only when it is followed. -/
def save (store : LabelStore) (label : Label) (target : Selection) :
    Except LabelStoreError (Option Selection × LabelStore) :=
  if target == .label label then .error (.labelCycle label)
  else .ok (store.load? label, ⟨define label target store.entries⟩)

/-- What a label stood for, and the definitions without it. -/
def delete (store : LabelStore) (label : Label) : Option Selection × LabelStore :=
  (store.load? label, ⟨store.entries.filter fun entry => !(entry.1 == label)⟩)

/-- How many definitions are of labels that a chain has not gone through. -/
def unseen (store : LabelStore) (seen : List Label) : Nat :=
  (store.entries.filter fun entry => !seen.contains entry.1).length

/-- A chain that goes through a defined label for the first time has fewer left
to go through. -/
theorem unseen_cons_lt {store : LabelStore} {seen : List Label} {label : Label} {target : Selection}
    (hseen : seen.contains label = false) (htarget : store.load? label = some target) :
    store.unseen (label :: seen) < store.unseen seen := by
  have hsplit : (store.entries.filter fun entry => !(label :: seen).contains entry.1)
      = (store.entries.filter fun entry => !seen.contains entry.1).filter
          fun entry => !(entry.1 == label) := by
    rw [List.filter_filter]
    exact List.filter_congr fun entry _ => by rw [List.contains_cons, Bool.not_or]
  obtain ⟨entry, hfind, -⟩ := Option.map_eq_some_iff.1 htarget
  have hsame : (entry.1 == label) = true :=
    List.find?_some (p := fun entry : Label × Selection => entry.1 == label) hfind
  have hfresh : seen.contains entry.1 = false := by
    rw [List.contains_eq_any_beq] at hseen ⊢
    rw [← hseen]
    exact congrArg seen.any (funext fun other => BEq.congr_left hsame)
  rw [unseen, unseen, hsplit, List.length_filter_lt_length_iff_exists]
  refine ⟨entry, List.mem_filter.2 ⟨List.mem_of_find?_eq_some hfind, ?_⟩, ?_⟩
  · rw [hfresh, Bool.not_false]
  · rw [hsame, Bool.not_true]
    exact Bool.false_ne_true

/-- **The end of a chain of labels** that has come to a label; `asked` is where
it started, and `seen` are the labels it has gone through. A chain that comes to
one of these again never ends; one that does not has fewer definitions left
(`unseen`). -/
def follow (store : LabelStore) (asked : Label) (seen : List Label) (label : Label) :
    Except LabelStoreError Selection :=
  if hseen : seen.contains label then .error (.labelCycle asked)
  else
    match htarget : store.load? label with
    | none => .error (.unknownLabel label)
    | some (.label next) => store.follow asked (label :: seen) next
    | some target => .ok target
termination_by store.unseen seen
decreasing_by exact unseen_cons_lt (Bool.eq_false_iff.2 hseen) htarget

/-- The selection a label stands for in the end. -/
def resolve (store : LabelStore) (label : Label) : Except LabelStoreError Selection :=
  store.follow label [] label

/-- Whether a label stands for cells among which a given one is. -/
def covers (store : LabelStore) (cell : Cell) (label : Label) : Bool :=
  ((store.resolve label).toOption.bind Selection.toRange?).any fun range => range.contains cell

/-- The labels that stand for a cell or a range with a given cell in it
(`covers`), in the order of `Label.compare`. -/
def labelsFor (store : LabelStore) (cell : Cell) : List Label :=
  ((store.entries.map Prod.fst).filter (store.covers cell)).mergeSort fun a b =>
    (a.compare b).isLE

end LabelStore

end Worksheet
