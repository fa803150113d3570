import Mathlib.Logic.Function.Iterate
import Mathlib.Logic.Relation
import Worksheet.Proofs.Store.Definitions

/-!
# Chains of labels

A label that is defined as another label leads on to it, and the labels it leads
to in this way are its chain. A chain comes to an end at a label that stands for
something else, or at one that is not defined; or it never ends
(`Label.ChainEnd`). It has one end only, since a label has one definition.

Chains may run into a circle from anywhere, with labels of the circle written in
any case. Following one keeps the labels gone through: when it comes to one of
them again, they all lead on to one another, so nothing that can be reached is
an end (`LabelStore.chainEnd_follow`). A label is therefore resolved to the end
of its chain, whatever that is (`LabelStore.resolve_run_iff`).
-/

namespace Worksheet

namespace Label

/-- A label is defined as another. Labels are told apart by their spelling here;
that spellings of one label lead on alike comes in by `LabelStore.load?_congr`. -/
def LeadsOn (definition? : Label → Option Selection) (a b : Label) : Prop :=
  definition? a = some (.label b)

/-- A label is in the chain of another, which begins with the label itself. -/
def Leads (definition? : Label → Option Selection) : Label → Label → Prop :=
  Relation.ReflTransGen (LeadsOn definition?)

/-- The chain of a label never ends: it leads on for ever. Definitions are
finitely many, so it comes back to a label it has gone through, possibly in
another spelling. -/
def Endless (definition? : Label → Option Selection) (label : Label) : Prop :=
  ∃ chain : Nat → Label, chain 0 = label ∧ ∀ n, LeadsOn definition? (chain n) (chain (n + 1))

/-- **What the chain of a label comes to**: a label that stands for something
else, a label that is not defined, or nothing. In the last case the error names
the label that was asked for, in the other error the last label of the chain. -/
inductive ChainEnd (definition? : Label → Option Selection) (label : Label) :
    Except LabelStoreError Selection → Prop where
  /-- A label that stands for something else. -/
  | target {last : Label} {target : Selection} (hleads : Leads definition? label last)
      (hlast : definition? last = some target) (hother : ∀ next, target ≠ .label next) :
      ChainEnd definition? label (.ok target)
  /-- A label that is not defined. -/
  | unknown {last : Label} (hleads : Leads definition? label last)
      (hlast : definition? last = none) :
      ChainEnd definition? label (.error (.unknownLabel last))
  /-- Nothing. -/
  | circle (hendless : Endless definition? label) :
      ChainEnd definition? label (.error (.labelCycle label))

variable {definition? : Label → Option Selection} {label : Label}

theorem rightUnique_leadsOn : Relator.RightUnique (LeadsOn definition?) := by
  intro a b c hb hc
  have heq : some (Selection.label b) = some (.label c) := hb.symm.trans hc
  cases heq
  rfl

/-- A chain has one last label at most, since each label leads on to one label
at most (`rightUnique_leadsOn`). -/
theorem Leads.last_unique {a b : Label} (ha : Leads definition? label a)
    (hb : Leads definition? label b) (halast : ∀ next, definition? a ≠ some (.label next))
    (hblast : ∀ next, definition? b ≠ some (.label next)) : a = b := by
  rcases ha.total_of_right_unique rightUnique_leadsOn hb with hab | hba
  · rcases hab.cases_head with heq | ⟨next, hnext, -⟩
    · exact heq
    · exact absurd hnext (halast next)
  · rcases hba.cases_head with heq | ⟨next, hnext, -⟩
    · exact heq.symm
    · exact absurd hnext (hblast next)

/-- Whatever an endless chain leads to leads on. So a chain does not both end
and never end. -/
theorem Endless.exists_leadsOn (h : Endless definition? label) {last : Label}
    (hleads : Leads definition? label last) : ∃ next, LeadsOn definition? last next := by
  obtain ⟨chain, hstart, hchain⟩ := h
  have hmem : ∃ n, chain n = last := by
    induction hleads with
    | refl => exact ⟨0, hstart⟩
    | tail _ hstep ih =>
      obtain ⟨n, rfl⟩ := ih
      exact ⟨n + 1, rightUnique_leadsOn (hchain n) hstep⟩
  obtain ⟨n, rfl⟩ := hmem
  exact ⟨chain (n + 1), hchain n⟩

def next (definition? : Label → Option Selection) (label : Label) : Label :=
  match definition? label with
  | some (.label next) => next
  | _ => label

theorem LeadsOn.next_eq {a b : Label} (h : LeadsOn definition? a b) : next definition? a = b := by
  unfold next
  rw [h]

/-- A chain of which every label leads on is endless: the chain is built by
going on with `next`. -/
theorem endless_of_forall_leads
    (h : ∀ last, Leads definition? label last → ∃ next, LeadsOn definition? last next) :
    Endless definition? label := by
  have hnext : ∀ {a}, Leads definition? label a → LeadsOn definition? a (next definition? a) := by
    intro a ha
    obtain ⟨b, hb⟩ := h a ha
    rw [hb.next_eq]
    exact hb
  have hleads : ∀ n, Leads definition? label ((next definition?)^[n] label) := by
    intro n
    induction n with
    | zero => exact Relation.ReflTransGen.refl
    | succ n ih =>
      rw [Function.iterate_succ_apply']
      exact ih.tail (hnext ih)
  refine ⟨fun n => (next definition?)^[n] label, rfl, fun n => ?_⟩
  dsimp only
  rw [Function.iterate_succ_apply']
  exact hnext (hleads n)

/-- What a label stands for where a chain leads on no further: its target, or
the error that it has none. -/
def standing (definition? : Label → Option Selection) (last : Label) :
    Except LabelStoreError Selection :=
  match definition? last with
  | some target => .ok target
  | none => .error (.unknownLabel last)

variable {answer answer' : Except LabelStoreError Selection}

/-- A chain comes to what its last label stands for, or it has no last label.
The three cases of `ChainEnd` become two, which exclude each other. -/
theorem ChainEnd.last_or_endless (h : ChainEnd definition? label answer) :
    (∃ last, Leads definition? label last ∧ (∀ next, definition? last ≠ some (.label next))
        ∧ answer = standing definition? last)
      ∨ Endless definition? label ∧ answer = .error (.labelCycle label) := by
  cases h with
  | @target last _ hleads hlast hother =>
    refine Or.inl ⟨last, hleads, fun next hnext => ?_, by rw [standing, hlast]⟩
    exact hother next (Option.some.inj (hlast.symm.trans hnext))
  | @unknown last hleads hlast =>
    refine Or.inl ⟨last, hleads, fun next hnext => ?_, by rw [standing, hlast]⟩
    cases hlast.symm.trans hnext
  | circle hendless => exact Or.inr ⟨hendless, rfl⟩

/-- **A chain comes to one thing only**, by `Leads.last_unique` where it ends
and by `Endless.exists_leadsOn` where it does not. -/
theorem ChainEnd.unique (h : ChainEnd definition? label answer)
    (h' : ChainEnd definition? label answer') : answer = answer' := by
  have hnot : ∀ {last}, Endless definition? label → Leads definition? label last →
      ¬ ∀ next, definition? last ≠ some (.label next) := fun hendless hleads hlast =>
    have ⟨next, hnext⟩ := hendless.exists_leadsOn hleads
    hlast next hnext
  rcases h.last_or_endless with ⟨last, hleads, hlast, rfl⟩ | ⟨hendless, rfl⟩ <;>
    rcases h'.last_or_endless with ⟨last', hleads', hlast', rfl⟩ | ⟨hendless', rfl⟩
  · rw [hleads.last_unique hleads' hlast hlast']
  · exact absurd hlast (hnot hendless' hleads)
  · exact absurd hlast' (hnot hendless hleads')
  · rfl

end Label

namespace LabelStore

open Label

/-- Spellings of one label have the same definition, as a store compares labels
without regard to case. -/
theorem load?_congr (store : LabelStore) {label label' : Label} (h : (label == label') = true) :
    store.load? label = store.load? label' := by
  unfold load?
  exact congrArg (fun p => (store.entries.find? p).map Prod.snd)
    (funext fun entry => BEq.congr_right h)

/-- **Labels that lead on among themselves are a circle**: a chain that goes
through them never ends. Each of them is known only up to its spelling, so the
chain is followed through the labels that are gone through, and not through
those that they are equal to. -/
theorem endless_of_closed {store : LabelStore} {seen : List Label} {label : Label}
    (hmem : seen.contains label = true)
    (hclosed : ∀ passed ∈ seen, ∃ next, store.load? passed = some (.label next)
      ∧ seen.contains next = true) : Endless store.load? label := by
  have hstep : ∀ {a}, seen.contains a = true →
      ∃ next, store.load? a = some (.label next) ∧ seen.contains next = true := by
    intro a ha
    rw [List.contains_eq_any_beq, List.any_eq_true] at ha
    obtain ⟨passed, hpassed, hsame⟩ := ha
    rw [store.load?_congr hsame]
    exact hclosed passed hpassed
  refine endless_of_forall_leads fun last hleads => ?_
  have hlast : seen.contains last = true := by
    induction hleads with
    | refl => exact hmem
    | tail _ hleadsOn ih =>
      obtain ⟨next, hnext, hseen⟩ := hstep ih
      cases rightUnique_leadsOn hnext hleadsOn
      exact hseen
  obtain ⟨next, hnext, -⟩ := hstep hlast
  exact ⟨next, hnext⟩

/-- One step of following a chain. `LabelStore.follow` ends by a measure, and
this is the equation it is unfolded by. -/
theorem follow_eq (store : LabelStore) (asked : Label) (seen : List Label) (label : Label) :
    store.follow asked seen label
      = if seen.contains label then .error (.labelCycle asked)
        else
          match store.load? label with
          | none => .error (.unknownLabel label)
          | some (.label next) => store.follow asked (label :: seen) next
          | some target => .ok target := by
  rw [follow]
  split
  · rfl
  · split
    · rename_i hload
      rw [hload]
    · rename_i next hload
      rw [hload]
    · rename_i target hother hload
      rw [hload]
      cases target with
      | label next => exact absurd rfl (hother next)
      | cell _ | range _ | column _ | row _ => rfl

/-- **Following a chain comes to its end.** The invariant of the recursion is
that each label gone through leads on to one of them or to the one that is next.
When the next one is among them, all of them lead on among themselves, and the
chain is endless by `endless_of_closed`. -/
theorem chainEnd_follow (store : LabelStore) (asked : Label) (seen : List Label) (label : Label)
    (hleads : Leads store.load? asked label) (hasked : (label :: seen).contains asked = true)
    (hseen : ∀ passed ∈ seen, ∃ next, store.load? passed = some (.label next)
      ∧ (label :: seen).contains next = true) :
    ChainEnd store.load? asked (store.follow asked seen label) := by
  induction seen, label using LabelStore.follow.induct store with
  | case1 seen label hlabel =>
    -- the label was passed before, so the labels passed lead only to one
    -- another
    have hback : ∀ {a}, (label :: seen).contains a = true → seen.contains a = true := by
      intro a ha
      rw [List.contains_cons, Bool.or_eq_true] at ha
      refine ha.elim (fun hsame => ?_) id
      rw [contains_congr seen hsame]
      exact hlabel
    rw [follow_eq, if_pos hlabel]
    refine .circle (endless_of_closed (hback hasked) fun passed hpassed => ?_)
    obtain ⟨next, hnext, hmem⟩ := hseen passed hpassed
    exact ⟨next, hnext, hback hmem⟩
  | case2 seen label hlabel hload =>
    rw [follow_eq, if_neg hlabel, hload]
    exact .unknown hleads hload
  | case3 seen label hlabel next hload ih =>
    have hfront : ∀ {a}, (label :: seen).contains a = true →
        (next :: label :: seen).contains a = true := by
      intro a ha
      rw [List.contains_cons, ha, Bool.or_true]
    rw [follow_eq, if_neg hlabel, hload]
    refine ih (hleads.tail hload) (hfront hasked) fun passed hpassed => ?_
    rcases List.mem_cons.1 hpassed with rfl | hpassed
    · exact ⟨next, hload, by rw [List.contains_cons, BEq.rfl, Bool.true_or]⟩
    · obtain ⟨after, hafter, hmem⟩ := hseen passed hpassed
      exact ⟨after, hafter, hfront hmem⟩
  | case4 seen label hlabel target hother hload =>
    rw [follow_eq, if_neg hlabel, hload]
    cases target with
    | label next => exact absurd rfl (hother next)
    | cell _ | range _ | column _ | row _ => exact .target hleads hload hother

theorem chainEnd_resolve (operations : List LabelOperation) (label : Label) :
    ChainEnd (definition? operations) label
      ((LabelStore.empty.run operations).resolve label) := by
  have hload : (LabelStore.empty.run operations).load? = definition? operations :=
    funext (records_run operations).load?_eq
  rw [← hload]
  refine chainEnd_follow _ label [] label Relation.ReflTransGen.refl ?_ nofun
  rw [List.contains_cons, BEq.rfl, Bool.true_or]

/-- **A label is resolved to the end of its chain**, whatever was done to the
store: to what the last label of the chain stands for, to the error that the
last label is not defined, or to the error that the chain of the label asked for
never ends. Since a chain has one end (`ChainEnd.unique`), this says what is
answered in every case. -/
theorem resolve_run_iff (operations : List LabelOperation) (label : Label)
    (answer : Except LabelStoreError Selection) :
    (LabelStore.empty.run operations).resolve label = answer
      ↔ ChainEnd (definition? operations) label answer := by
  have hend := chainEnd_resolve operations label
  constructor
  · rintro rfl
    exact hend
  · exact hend.unique

end LabelStore

end Worksheet
