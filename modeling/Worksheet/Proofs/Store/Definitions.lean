import Worksheet.Store.LabelStore
import Worksheet.Proofs.Store.Values

/-!
# What labels are defined as

A label is saved, saved anew and deleted, in spellings that may differ in case.
What matters of all that are its `definitions` since it was last deleted: the
first of them gives the spelling that is kept (`spelling?`), the last one what
the label stands for (`definition?`). To define a label as itself is refused,
and counts for nothing.

A store keeps one entry for each label. After any operations it is that of its
definitions (`LabelStore.records_run`).
-/

namespace Worksheet

/-- What can be done to the definitions of labels. -/
inductive LabelOperation where
  /-- A label is defined, or defined anew. -/
  | save (label : Label) (target : Selection)
  /-- A label loses its definition. -/
  | delete (label : Label)
  deriving DecidableEq

/-- What becomes of the definitions of a label by an operation. A definition as
itself is not recorded, however the label is spelled. -/
def LabelOperation.record (label : Label) (known : List (Label × Selection)) :
    LabelOperation → List (Label × Selection)
  | .save name target =>
    if name == label && !(target == .label name) then known ++ [(name, target)] else known
  | .delete name => if name == label then [] else known

/-- The definitions of a label since it was last deleted, the earliest first:
each with the spelling in which it was given. It is computed from the operations
alone, without a store. -/
def definitions (operations : List LabelOperation) (label : Label) : List (Label × Selection) :=
  operations.foldl (LabelOperation.record label) []

def spelling? (operations : List LabelOperation) (label : Label) : Option Label :=
  (definitions operations label).head?.map Prod.fst

def definition? (operations : List LabelOperation) (label : Label) : Option Selection :=
  (definitions operations label).getLast?.map Prod.snd

/-- Spellings of one label have the same definitions. -/
theorem definitions_congr (operations : List LabelOperation) {label label' : Label}
    (h : (label == label') = true) :
    definitions operations label = definitions operations label' := by
  have hrecord : LabelOperation.record label = LabelOperation.record label' := by
    funext known operation
    cases operation with
    | save name target => rw [LabelOperation.record, LabelOperation.record, BEq.congr_right h]
    | delete name => rw [LabelOperation.record, LabelOperation.record, BEq.congr_right h]
  rw [definitions, definitions, hrecord]

/-! ## The entry of a label

A store keeps one entry for each label and forgets all definitions but two
things: the spelling of the first, and the target of the last. -/

/-- One entry for all definitions of a label: the first spelling with the last
target. -/
def entryOf? (known : List (Label × Selection)) : Option (Label × Selection) :=
  known.head?.bind fun first => known.getLast?.map fun last => (first.1, last.2)

theorem entryOf?_cons (first : Label × Selection) (known : List (Label × Selection)) :
    entryOf? (first :: known) = some (first.1, ((first :: known).getLast (by simp)).2) := by
  rw [entryOf?, List.getLast?_eq_some_getLast (List.cons_ne_nil _ _)]
  rfl

theorem map_fst_entryOf? (known : List (Label × Selection)) :
    (entryOf? known).map Prod.fst = known.head?.map Prod.fst := by
  cases known with
  | nil => rfl
  | cons first known => rw [entryOf?_cons]; rfl

theorem map_snd_entryOf? (known : List (Label × Selection)) :
    (entryOf? known).map Prod.snd = known.getLast?.map Prod.snd := by
  cases known with
  | nil => rfl
  | cons first known =>
    rw [entryOf?_cons, List.getLast?_eq_some_getLast (List.cons_ne_nil _ _)]
    rfl

theorem entryOf?_append (known : List (Label × Selection)) (name : Label)
    (target : Selection) :
    entryOf? (known ++ [(name, target)])
      = some (((entryOf? known).map Prod.fst).getD name, target) := by
  have hlast : (known ++ [(name, target)]).getLast? = some (name, target) := by simp
  rw [map_fst_entryOf?, entryOf?, hlast]
  cases known <;> rfl

namespace LabelStore

/-! ## Operations on a store

A label is looked up by its name without regard to case. The lemmas on `find?`
say what an operation does to one label and that it leaves the others as they
are. -/

/-- The store after an operation; a definition that is refused leaves it as it
is. -/
def step (store : LabelStore) : LabelOperation → LabelStore
  | .save label target =>
    match store.save label target with
    | .ok (_, store) => store
    | .error _ => store
  | .delete label => (store.delete label).2

def run (store : LabelStore) (operations : List LabelOperation) : LabelStore :=
  operations.foldl step store

theorem step_save (store : LabelStore) (label : Label) (target : Selection) :
    store.step (.save label target)
      = if target == .label label then store else ⟨define label target store.entries⟩ := by
  cases hself : target == Selection.label label <;> simp [step, save, hself]

def find? (store : LabelStore) (label : Label) : Option (Label × Selection) :=
  store.entries.find? fun entry => entry.1 == label

theorem find?_cons (entry : Label × Selection) (entries : List (Label × Selection))
    (label : Label) :
    find? ⟨entry :: entries⟩ label
      = if entry.1 == label then some entry else find? ⟨entries⟩ label := by
  rw [find?, List.find?_cons]
  cases entry.1 == label <;> rfl

/-- **A definition changes the entry of its label only.** The spelling that is
there is kept, and the target is the new one. -/
theorem find?_define (label : Label) (target : Selection)
    (entries : List (Label × Selection)) (other : Label) :
    find? ⟨define label target entries⟩ other
      = if label == other then
          some (((find? ⟨entries⟩ label).map Prod.fst).getD label, target)
        else find? ⟨entries⟩ other := by
  induction entries with
  | nil => exact find?_cons _ [] other
  | cons entry entries ih =>
    rw [define, find?_cons entry entries label, find?_cons entry entries other]
    cases hentry : entry.1 == label with
    | true =>
      rw [if_pos rfl, if_pos rfl, find?_cons, BEq.congr_left hentry]
      cases label == other <;> rfl
    | false =>
      rw [if_neg Bool.false_ne_true, if_neg Bool.false_ne_true, find?_cons, ih]
      cases hother : label == other with
      | true =>
        rw [← BEq.congr_right hother, hentry]
        rfl
      | false => rfl

/-- **A deletion takes the entry of its label only**, in whatever spelling it is
asked for. -/
theorem find?_delete (store : LabelStore) (label other : Label) :
    (store.delete label).2.find? other
      = if label == other then none else store.find? other := by
  rw [delete, find?, List.find?_filter]
  cases hother : label == other with
  | true =>
    refine List.find?_eq_none.2 fun entry _ => ?_
    rw [BEq.congr_right hother]
    simp
  | false =>
    rw [if_neg Bool.false_ne_true, find?]
    refine congrArg (fun p => store.entries.find? p) (funext fun entry => ?_)
    cases hentry : entry.1 == other with
    | false => simp
    | true =>
      have hlabel : (entry.1 == label) = false := by
        rw [BEq.congr_left hentry, BEq.comm, hother]
      simp [hlabel]

theorem label_of_mem_define {label : Label} {target : Selection}
    {entries : List (Label × Selection)} {entry : Label × Selection}
    (h : entry ∈ define label target entries) :
    entry.1 = label ∨ ∃ entry' ∈ entries, entry'.1 = entry.1 := by
  induction entries with
  | nil => exact Or.inl (congrArg Prod.fst (List.mem_singleton.1 h))
  | cons head entries ih =>
    unfold define at h
    split at h
    · rcases List.mem_cons.1 h with rfl | h
      · exact Or.inr ⟨head, List.mem_cons_self, rfl⟩
      · exact Or.inr ⟨entry, List.mem_cons_of_mem _ h, rfl⟩
    · rcases List.mem_cons.1 h with rfl | h
      · exact Or.inr ⟨entry, List.mem_cons_self, rfl⟩
      · refine (ih h).imp_right ?_
        rintro ⟨entry', hentry', heq⟩
        exact ⟨entry', List.mem_cons_of_mem _ hentry', heq⟩

/-- A definition keeps the labels of the entries apart: it makes a new entry
only when no entry has the label. -/
theorem distinct_define {label : Label} {target : Selection}
    {entries : List (Label × Selection)}
    (h : entries.Pairwise fun a b => (a.1 == b.1) = false) :
    (define label target entries).Pairwise fun a b => (a.1 == b.1) = false := by
  induction entries with
  | nil => exact List.pairwise_singleton _ _
  | cons head entries ih =>
    obtain ⟨hhead, hentries⟩ := List.pairwise_cons.1 h
    unfold define
    split
    · exact List.pairwise_cons.2 ⟨hhead, hentries⟩
    · rename_i hlabel
      refine List.pairwise_cons.2 ⟨fun entry hentry => ?_, ih hentries⟩
      rcases label_of_mem_define hentry with heq | ⟨entry', hentry', heq⟩
      · rw [heq]
        exact Bool.eq_false_iff.2 hlabel
      · rw [← heq]
        exact hhead entry' hentry'

/-! ## What a store keeps

`Records` is proved for one operation after another. What is said of labels
elsewhere is read off it, with the definitions computed from the operations
alone. -/

/-- **A store records operations**: it has one entry for each label, made of its
definitions. What the operations were otherwise cannot be seen in it. -/
structure Records (store : LabelStore) (operations : List LabelOperation) : Prop where
  /-- No two entries are of one label. -/
  distinct : store.entries.Pairwise fun a b => (a.1 == b.1) = false
  /-- A label has the entry of its definitions. -/
  find?_eq : ∀ label, store.find? label = entryOf? (definitions operations label)

namespace Records

theorem empty : Records LabelStore.empty [] where
  distinct := List.Pairwise.nil
  find?_eq := fun _ => rfl

variable {store : LabelStore} {operations : List LabelOperation}

/-- One more operation is recorded. For a definition there are three cases: it
is refused, it is the first of its label, or it comes to others. -/
theorem step (h : Records store operations) (operation : LabelOperation) :
    Records (store.step operation) (operations ++ [operation]) := by
  have hrecord : ∀ label, definitions (operations ++ [operation]) label
      = operation.record label (definitions operations label) := fun label => by
    rw [definitions, List.foldl_append]
    rfl
  cases operation with
  | save name target =>
    rw [step_save]
    cases hself : target == Selection.label name with
    | true =>
      -- a label is not defined as itself
      refine ⟨h.distinct, fun label => ?_⟩
      rw [hrecord, LabelOperation.record, hself, Bool.not_true, Bool.and_false,
        if_neg Bool.false_ne_true]
      exact h.find?_eq label
    | false =>
      refine ⟨distinct_define h.distinct, fun label => ?_⟩
      refine (find?_define name target store.entries label).trans ?_
      rw [hrecord, LabelOperation.record, hself, Bool.not_false, Bool.and_true]
      cases hlabel : name == label with
      | true =>
        rw [if_pos rfl, if_pos rfl, entryOf?_append, ← definitions_congr operations hlabel,
          ← h.find?_eq]
      | false => exact h.find?_eq label
  | delete name =>
    refine ⟨h.distinct.filter _, fun label => ?_⟩
    refine (find?_delete store name label).trans ?_
    rw [hrecord, LabelOperation.record, h.find?_eq]
    cases name == label <;> rfl

/-- Operations one after another are recorded, by induction on the new ones. -/
theorem run (h : Records store operations) (more : List LabelOperation) :
    Records (store.run more) (operations ++ more) := by
  induction more generalizing store operations with
  | nil =>
    rw [List.append_nil]
    exact h
  | cons operation more ih =>
    rw [List.append_cons]
    exact ih (h.step operation)

theorem load?_eq (h : Records store operations) (label : Label) :
    store.load? label = definition? operations label := by
  rw [definition?, ← map_snd_entryOf?, ← h.find?_eq]
  rfl

/-- **The labels of a store are in the spelling in which they were first
defined** since they were last deleted. -/
theorem mem_labels_iff (h : Records store operations) (label : Label) :
    label ∈ store.entries.map Prod.fst ↔ spelling? operations label = some label := by
  rw [spelling?, ← map_fst_entryOf?, ← h.find?_eq]
  constructor
  · intro hlabel
    obtain ⟨entry, hentry, rfl⟩ := List.mem_map.1 hlabel
    rw [find?, find?_key_of_mem h.distinct hentry]
    rfl
  · intro hspelling
    obtain ⟨entry, hentry, rfl⟩ := Option.map_eq_some_iff.1 hspelling
    exact List.mem_map_of_mem (List.mem_of_find?_eq_some hentry)

end Records

/-- **Whatever is done to the empty store is recorded**: the invariant from
which all that is said of labels follows. -/
theorem records_run (operations : List LabelOperation) :
    Records (LabelStore.empty.run operations) operations :=
  Records.empty.run operations

end LabelStore

end Worksheet
