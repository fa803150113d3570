import Worksheet.Proofs.Formula.Climbing

/-!
# How far the readers look ahead

What is read from the front of some lexemes is decided by the lexemes it takes
and by the one behind them. It stays the same when everything behind that one is
replaced, with one exception: a colon is only understood together with the cell
behind it, so it must not be lost whether there is a cell (`Alike`).

For each reader this is a comparison of two answers, for lexemes that have a
front in common (`Agrees`). Nothing is compared when the lexeme at which they
begin to differ was taken itself, so each proof begins by finding it still
there.

The readers call each other on fewer and fewer lexemes. As before, rows of
operands with a shorter front are taken to agree (`RowsAgree`), each reader is
looked at by itself, and the circle is closed by induction on the length of the
front (`rowsAgree`).
-/

namespace Worksheet.Formula

/-! ## Two continuations

The comparison is between two runs of the same reader, on the same front with
different continuations. They may differ in everything behind the first lexeme
of the continuation, but for the cell behind a colon (`Alike`). -/

/-- Whether some lexemes begin with a cell. -/
def beginsWithCell : List Lexeme → Bool
  | [] => false
  | lexeme :: _ => lexeme.token.isCell

/-- **Two continuations look alike** from before them: they have their first
lexeme in common, if they have any, and if that is a colon, there is a cell
behind it in both of them or in neither. -/
inductive Alike : List Lexeme → List Lexeme → Prop
  | nil : Alike [] []
  | cons (next : Lexeme) {rest rest' : List Lexeme}
      (h : next.kind.isMark .between = true → beginsWithCell rest = beginsWithCell rest') :
      Alike (next :: rest) (next :: rest')

theorem Alike.refl (tail : List Lexeme) : Alike tail tail := by
  cases tail with
  | nil => exact .nil
  | cons next rest => exact .cons next fun _ => rfl

variable {tail tail' : List Lexeme}

theorem Alike.beginsWithCell_append (h : Alike tail tail') (front : List Lexeme) :
    beginsWithCell (front ++ tail) = beginsWithCell (front ++ tail') := by
  cases front with
  | nil => cases h <;> rfl
  | cons => rfl

theorem Alike.exists_cons (h : Alike tail tail') {front more : List Lexeme} {lexeme : Lexeme}
    (hmore : front ++ tail = lexeme :: more) : ∃ more', front ++ tail' = lexeme :: more' := by
  cases front with
  | nil =>
    cases h with
    | nil => cases hmore
    | cons next => exact ⟨_, congrArg (· :: _) (List.cons.inj hmore).1⟩
  | cons first front => exact ⟨_, congrArg (· :: _) (List.cons.inj hmore).1⟩

theorem Alike.head?_append (h : Alike tail tail') (front : List Lexeme) :
    (front ++ tail').head? = (front ++ tail).head? := by
  cases front with
  | nil => cases h <;> rfl
  | cons => rfl

theorem Alike.eq_nil (h : Alike tail tail') {front : List Lexeme} (hnil : front ++ tail = []) :
    front ++ tail' = [] := by
  obtain ⟨rfl, rfl⟩ := List.append_eq_nil_iff.1 hnil
  cases h
  rfl

/-- **Two answers agree** behind a front: if the continuation is left over in
one of them, blanks passed over, the other has the same tree and has left over
the other continuation, with as much of the front before it. An answer that has
eaten into the continuation is not compared. -/
def Agrees (front tail tail' : List Lexeme)
    (answer answer' : Except SyntaxError (Token × List Lexeme)) : Prop :=
  ∀ tree rest, answer = .ok (tree, rest) → tail.length ≤ (afterBlanks rest).length →
    ∃ back, back <:+ front ∧ rest = back ++ tail ∧ answer' = .ok (tree, back ++ tail')

theorem Agrees.mono {front front' : List Lexeme}
    {answer answer' : Except SyntaxError (Token × List Lexeme)}
    (h : Agrees front tail tail' answer answer') (hfront : front <:+ front') :
    Agrees front' tail tail' answer answer' := by
  intro tree rest hanswer hle
  obtain ⟨back, hback, h⟩ := h tree rest hanswer hle
  exact ⟨back, hback.trans hfront, h⟩

/-- An answer that has taken some of the continuation is not compared. -/
theorem agrees_of_lt {front : List Lexeme}
    {answer answer' : Except SyntaxError (Token × List Lexeme)}
    (h : ∀ found, answer = .ok found → found.2.length < tail.length) :
    Agrees front tail tail' answer answer' :=
  fun _ rest hanswer hle =>
    absurd (Nat.le_trans hle (length_afterBlanks rest)) (Nat.not_le.2 (h _ hanswer))

theorem append_eq_cons {back after : List Lexeme} {lexeme : Lexeme}
    (h : back ++ tail = lexeme :: after) (hle : tail.length ≤ after.length) :
    ∃ front, back = lexeme :: front ∧ after = front ++ tail := by
  cases back with
  | nil =>
    rw [List.nil_append] at h
    rw [h, List.length_cons] at hle
    exact absurd hle (Nat.not_succ_le_self _)
  | cons first front =>
    obtain ⟨rfl, rfl⟩ := List.cons.inj h
    exact ⟨front, rfl, rfl⟩

/-! ## Blanks, references and percent signs

The readers without recursion come first. A reference is the only one that
looks two lexemes ahead, and the reason for the exception in `Alike`. -/

/-- **What is behind blanks**, if it is not behind the lexeme at which the
continuation begins. -/
theorem Alike.afterBlanks_eq (h : Alike tail tail') {front : List Lexeme}
    (hle : tail.length ≤ (afterBlanks (front ++ tail)).length) :
    ∃ back, back <:+ front ∧ afterBlanks (front ++ tail) = back ++ tail ∧
      afterBlanks (front ++ tail') = back ++ tail' ∧
      blanks (front ++ tail') = blanks (front ++ tail) := by
  induction front with
  | nil =>
    cases h with
    | nil => exact ⟨[], List.suffix_rfl, rfl, rfl, rfl⟩
    | @cons next rest rest' =>
      have hshorter := length_afterBlanks rest
      simp only [List.nil_append, afterBlanks, blanks, List.dropWhile_cons, List.takeWhile_cons]
        at hle hshorter ⊢
      cases hblank : next.isBlank with
      | true =>
        rw [hblank, if_pos rfl, List.length_cons] at hle
        exact absurd (Nat.le_trans hle hshorter) (Nat.not_succ_le_self _)
      | false => exact ⟨[], List.suffix_rfl, rfl, rfl, rfl⟩
  | cons first front ih =>
    simp only [List.cons_append, afterBlanks, blanks, List.dropWhile_cons, List.takeWhile_cons]
      at hle ih ⊢
    cases hblank : first.isBlank with
    | true =>
      rw [hblank, if_pos rfl] at hle
      obtain ⟨back, hback, hafter, hafter', hblanks⟩ := ih hle
      exact ⟨back, hback.trans (List.suffix_cons _ _), hafter, hafter',
        congrArg (first.token :: ·) hblanks⟩
    | false => exact ⟨first :: front, List.suffix_rfl, rfl, rfl, rfl⟩

/-- **A lexeme behind blanks**, in front of the continuation. Readers look for
marks in this way, so it is the first step of most comparisons. -/
theorem Alike.afterBlanks_eq_cons (h : Alike tail tail') {front after : List Lexeme}
    {lexeme : Lexeme} (hafter : afterBlanks (front ++ tail) = lexeme :: after)
    (hle : tail.length ≤ after.length) :
    ∃ back, lexeme :: back <:+ front ∧ after = back ++ tail ∧
      afterBlanks (front ++ tail') = lexeme :: (back ++ tail') ∧
      blanks (front ++ tail') = blanks (front ++ tail) := by
  have hlonger : tail.length ≤ (afterBlanks (front ++ tail)).length := by
    rw [hafter]
    exact Nat.le_succ_of_le hle
  obtain ⟨back, hback, heq, hafter', hblanks⟩ := h.afterBlanks_eq hlonger
  obtain ⟨back, rfl, rfl⟩ := append_eq_cons (heq.symm.trans hafter) hle
  exact ⟨back, hback, rfl, hafter', hblanks⟩

/-- **A reference is a range** when a colon and a cell come next. This is the
one place where two lexemes are looked at. -/
theorem readReference_cons (first between : Lexeme) (rest : List Lexeme) :
    readReference first (between :: rest) =
      if between.kind.isMark .between && beginsWithCell rest then
        (.join .range (first.token :: between.token :: (rest.take 1).map Lexeme.token),
          rest.drop 1)
      else (first.token, between :: rest) := by
  cases rest with
  | nil => cases between.kind.isMark .between <;> rfl
  | cons last rest =>
    obtain ⟨kind, text, start⟩ := last
    cases hcolon : between.kind.isMark .between <;> cases kind <;>
      simp [readReference, beginsWithCell, Lexeme.token, Token.isCell, hcolon]

/-- **References agree**, as a colon at the front of a continuation is followed
by a cell in both or in neither. -/
theorem Alike.readReference_agrees (h : Alike tail tail') (first : Lexeme) (front : List Lexeme) :
    Agrees front tail tail' (.ok (readReference first (front ++ tail)))
      (.ok (readReference first (front ++ tail'))) := by
  intro tree rest hread hle
  replace hread := Except.ok.inj hread
  -- the reader looks two lexemes ahead: none, one or both of them can lie in
  -- the tail
  cases front with
  | nil =>
    cases h with
    | nil =>
      obtain ⟨rfl, rfl⟩ := Prod.mk.inj hread
      exact ⟨[], List.suffix_rfl, rfl, rfl⟩
    | @cons next more more' hnext =>
      rw [List.nil_append, readReference_cons] at hread
      rw [List.nil_append, readReference_cons]
      split at hread
      · obtain ⟨-, rfl⟩ := Prod.mk.inj hread
        -- a range would have taken the tail's first two lexemes, and less would
        -- be left than the tail is long
        have hshorter := length_afterBlanks (more.drop 1)
        rw [List.length_drop] at hshorter
        rw [List.length_cons] at hle
        omega
      · rename_i hrange
        obtain ⟨rfl, rfl⟩ := Prod.mk.inj hread
        refine ⟨[], List.suffix_rfl, rfl, congrArg Except.ok (if_neg fun hrange' => hrange ?_)⟩
        obtain ⟨hcolon, hcell⟩ := Bool.and_eq_true_iff.1 hrange'
        exact Bool.and_eq_true_iff.2 ⟨hcolon, (hnext hcolon).trans hcell⟩
  | cons between front =>
    rw [List.cons_append, readReference_cons] at hread
    rw [List.cons_append, readReference_cons, ← h.beginsWithCell_append front]
    split at hread
    · rename_i hrange
      obtain ⟨rfl, rfl⟩ := Prod.mk.inj hread
      cases front with
      | nil =>
        cases h with
        | nil => exact absurd (Bool.and_eq_true_iff.1 hrange).2 Bool.false_ne_true
        | cons next =>
          exact absurd (Nat.le_trans hle (length_afterBlanks _)) (Nat.not_succ_le_self _)
      | cons last front =>
        refine ⟨front, ?_, rfl, congrArg Except.ok (if_pos hrange)⟩
        exact (List.suffix_cons _ _).trans (List.suffix_cons _ _)
    · obtain ⟨rfl, rfl⟩ := Prod.mk.inj hread
      exact ⟨between :: front, List.suffix_rfl, rfl, congrArg Except.ok (if_neg ‹_›)⟩

/-- **Percent signs agree.** -/
theorem Alike.readPercents_agrees (h : Alike tail tail') (operand : Token) (front : List Lexeme) :
    Agrees front tail tail' (.ok (readPercents operand (front ++ tail)))
      (.ok (readPercents operand (front ++ tail'))) := by
  induction front generalizing operand with
  | nil =>
    intro tree rest hread hle
    replace hread := Except.ok.inj hread
    cases h with
    | nil =>
      obtain ⟨rfl, rfl⟩ := Prod.mk.inj hread
      exact ⟨[], List.suffix_rfl, rfl, rfl⟩
    | @cons next more more' =>
      rw [List.nil_append, readPercents] at hread
      rw [List.nil_append, readPercents]
      split at hread
      · -- a percent sign at the head of the tail would leave less than the
        -- tail
        have hlength := length_readPercents (.join .percentage [operand, next.token]) more
        rw [hread] at hlength
        exact absurd (Nat.le_trans (Nat.le_trans hle (length_afterBlanks rest)) hlength)
          (Nat.not_succ_le_self _)
      · rename_i hpercent
        obtain ⟨rfl, rfl⟩ := Prod.mk.inj hread
        exact ⟨[], List.suffix_rfl, rfl, congrArg Except.ok (if_neg hpercent)⟩
  | cons first front ih =>
    rw [List.cons_append, List.cons_append, readPercents, readPercents]
    split
    · exact (ih _).mono (List.suffix_cons _ _)
    · intro tree rest hread hle
      obtain ⟨rfl, rfl⟩ := Prod.mk.inj (Except.ok.inj hread)
      exact ⟨first :: front, List.suffix_rfl, rfl, rfl⟩

theorem length_afterBlanks_readPercents (operand : Token) (input : List Lexeme) :
    (afterBlanks (readPercents operand input).2).length ≤ (afterBlanks input).length := by
  cases input with
  | nil => exact Nat.le_refl _
  | cons lexeme rest =>
    rw [readPercents]
    split
    · rename_i hpercent
      have hmark : lexeme.token.isMark .percent = true := hpercent
      rw [(unspaced_mark hmark rest).afterBlanks_eq]
      exact Nat.le_trans (length_afterBlanks _)
        (Nat.le_succ_of_le (length_readPercents _ rest))
    · exact Nat.le_refl _

theorem length_afterBlanks_readOperations {finish least : Nat} {left : Token}
    {input : List Lexeme} {found : Token × List Lexeme}
    (hread : outcome (readOperations finish least left input) = .ok found) :
    (afterBlanks found.2).length ≤ (afterBlanks input).length := by
  rw [outcome_readOperations] at hread
  split at hread
  · exact Except.ok.inj hread ▸ Nat.le_refl _
  · rename_i lexeme rest hafter
    split at hread
    · exact Except.ok.inj hread ▸ Nat.le_refl _
    · split at hread
      · exact Except.ok.inj hread ▸ Nat.le_refl _
      · obtain ⟨⟨right, after⟩, hright, hread⟩ := exists_of_bind_eq_ok hread
        have hbound : found.2.length ≤ after.length := bound_of_outcome hread
        have hbound' : after.length < (afterBlanks rest).length := bound_of_outcome hright
        have hrest := length_afterBlanks rest
        have hfound := length_afterBlanks found.2
        rw [hafter, List.length_cons]
        omega

/-- A call takes its opening parenthesis, at least. -/
theorem length_readCall {finish : Nat} {name : Lexeme} {input : List Lexeme}
    {found : Token × List Lexeme} (hread : outcome (readCall finish name input) = .ok found) :
    found.2.length < input.length := by
  cases input with
  | nil =>
    rw [outcome_readCall_nil] at hread
    cases hread
  | cons opener rest =>
    have hrest := length_afterBlanks rest
    rw [outcome_readCall] at hread
    split at hread
    · split at hread
      · have hbound : found.2.length < 0 := bound_of_outcome hread
        exact absurd hbound (Nat.not_lt_zero _)
      · rename_i lexeme after hafter
        rw [hafter] at hrest
        split at hread
        · rw [← Except.ok.inj hread]
          exact Nat.lt_succ_of_lt hrest
        · have hbound : found.2.length < (lexeme :: after).length := bound_of_outcome hread
          exact Nat.lt_succ_of_lt (Nat.lt_of_lt_of_le hbound hrest)
    · cases hread

/-! ## Readers

The induction is on the length of the front, and each reader has a step of its
own in which all readers are compared on shorter fronts (`RowsAgree`). -/

variable {finish n : Nat}

/-- Rows of operands agree when they have a front in common that is shorter than
a number. It is the hypothesis of the induction on that number in `rowsAgree`. -/
def RowsAgree (finish n : Nat) (tail tail' : List Lexeme) : Prop :=
  ∀ front : List Lexeme, front.length < n → ∀ least,
    Agrees front tail tail' (outcome (readBinary finish least (front ++ tail)))
      (outcome (readBinary finish least (front ++ tail')))

/-- Blanks may be passed over first. What is left over of the front has got
shorter. -/
theorem RowsAgree.behindBlanks (h : RowsAgree finish n tail tail') (halike : Alike tail tail')
    {front : List Lexeme} (hlength : front.length < n) {least : Nat} {tree : Token}
    {rest : List Lexeme}
    (hread : outcome (readBinary finish least (afterBlanks (front ++ tail))) = .ok (tree, rest))
    (hle : tail.length ≤ (afterBlanks rest).length) :
    ∃ back, back <:+ front ∧ back.length < front.length ∧ rest = back ++ tail ∧
      outcome (readBinary finish least (afterBlanks (front ++ tail'))) = .ok (tree, back ++ tail') ∧
      blanks (front ++ tail') = blanks (front ++ tail) := by
  have hbound : rest.length < (afterBlanks (front ++ tail)).length := bound_of_outcome hread
  have hlonger := Nat.lt_of_le_of_lt (Nat.le_trans hle (length_afterBlanks rest)) hbound
  obtain ⟨inner, hinner, hafter, hafter', hblanks⟩ := halike.afterBlanks_eq (Nat.le_of_lt hlonger)
  rw [hafter] at hread hbound
  obtain ⟨back, hback, rfl, hread'⟩ :=
    h inner (Nat.lt_of_le_of_lt hinner.length_le hlength) least tree rest hread hle
  have hshorter := hinner.length_le
  rw [List.length_append, List.length_append] at hbound
  exact ⟨back, hback.trans hinner, by omega, rfl, hafter' ▸ hread', hblanks⟩

/-- **Groups agree**: behind the parenthesis the front is shorter. -/
theorem RowsAgree.group (h : RowsAgree finish n tail tail') (halike : Alike tail tail')
    (opener : Lexeme) {front : List Lexeme} (hlength : front.length < n) :
    Agrees front tail tail' (outcome (readGroup finish opener (front ++ tail)))
      (outcome (readGroup finish opener (front ++ tail'))) := by
  intro tree rest hread hle
  rw [outcome_readGroup] at hread ⊢
  obtain ⟨⟨body, mid⟩, hbody, hread⟩ := exists_of_bind_eq_ok hread
  dsimp only at hread
  split at hread
  · rename_i closer after hafter
    split at hread
    · rename_i hcloser
      obtain ⟨rfl, rfl⟩ := Prod.mk.inj (Except.ok.inj hread)
      have hle' := Nat.le_trans hle (length_afterBlanks after)
      obtain ⟨back, hback, -, rfl, hbody', hblanks⟩ :=
        h.behindBlanks halike hlength hbody (hafter ▸ Nat.le_succ_of_le hle')
      obtain ⟨back', hback', rfl, hafter', hblanks'⟩ := halike.afterBlanks_eq_cons hafter hle'
      refine ⟨back', (List.suffix_cons _ _).trans (hback'.trans hback), rfl, ?_⟩
      rw [hbody', hblanks]
      dsimp only [Except.bind]
      rw [hafter', hblanks']
      dsimp only
      rw [if_pos hcloser]
    · cases hread
  · cases hread

/-- **Arguments agree**, each behind a shorter front than the one before. -/
theorem RowsAgree.arguments (h : RowsAgree finish n tail tail') (halike : Alike tail tail')
    (before : List Token) {front : List Lexeme} (hlength : front.length < n) :
    Agrees front tail tail' (outcome (readArguments finish before (front ++ tail)))
      (outcome (readArguments finish before (front ++ tail'))) := by
  induction hfront : front.length using Nat.strongRecOn generalizing before front with
  | _ length ih =>
  subst hfront
  intro tree rest hread hle
  rw [outcome_readArguments] at hread ⊢
  obtain ⟨⟨argument, mid⟩, hargument, hread⟩ := exists_of_bind_eq_ok hread
  dsimp only at hread
  split at hread
  · cases hread
  · rename_i lexeme after hafter
    -- whatever comes behind this argument, it has left over the continuation
    have hrest : rest.length ≤ after.length := by
      split at hread
      · exact Nat.le_trans (Nat.le_of_lt (bound_of_outcome hread)) (length_afterBlanks after)
      · split at hread
        · exact Nat.le_of_eq (congrArg (List.length ·.2) (Except.ok.inj hread)).symm
        · cases hread
    have hlonger := Nat.le_trans hle (length_afterBlanks rest)
    have hle' := Nat.le_trans hlonger hrest
    obtain ⟨back, hback, rfl, hargument'⟩ :=
      h front hlength 0 argument mid hargument (hafter ▸ Nat.le_succ_of_le hle')
    obtain ⟨back', hback', rfl, hafter', hblanks⟩ := halike.afterBlanks_eq_cons hafter hle'
    replace hback' : lexeme :: back' <:+ front := hback'.trans hback
    have hshorter : back'.length < front.length := hback'.length_le
    rw [hargument']
    dsimp only [Except.bind]
    rw [hafter', hblanks]
    dsimp only
    split at hread
    · rename_i hcomma
      rw [if_pos hcomma]
      have hbound' : rest.length < (afterBlanks (back' ++ tail)).length := bound_of_outcome hread
      obtain ⟨inner, hinner, heq, heq', hblanks'⟩ :=
        halike.afterBlanks_eq (Nat.le_of_lt (Nat.lt_of_le_of_lt hlonger hbound'))
      rw [heq', hblanks']
      rw [heq] at hread
      have hinner' := Nat.lt_of_le_of_lt hinner.length_le hshorter
      exact (ih inner.length hinner' _ (Nat.lt_trans hinner' hlength) rfl).mono
        (hinner.trans ((List.suffix_cons _ _).trans hback')) tree rest hread hle
    · rename_i hcomma
      rw [if_neg hcomma]
      split at hread
      · rename_i hcloser
        obtain ⟨rfl, rfl⟩ := Prod.mk.inj (Except.ok.inj hread)
        exact ⟨back', (List.suffix_cons _ _).trans hback', rfl, if_pos hcloser⟩
      · cases hread

/-- **Calls agree.** The name is taken from the front, and then the
parenthesis. -/
theorem RowsAgree.call (h : RowsAgree finish n tail tail') (halike : Alike tail tail')
    (name : Lexeme) {front : List Lexeme} (hlength : front.length ≤ n) :
    Agrees front tail tail' (outcome (readCall finish name (front ++ tail)))
      (outcome (readCall finish name (front ++ tail'))) := by
  cases front with
  | nil => exact agrees_of_lt fun found hfound => length_readCall hfound
  | cons opener front =>
    rw [List.cons_append, List.cons_append, outcome_readCall, outcome_readCall]
    intro tree rest hread hle
    have hlonger := Nat.le_trans hle (length_afterBlanks rest)
    split at hread
    · rename_i hopener
      rw [if_pos hopener]
      split at hread
      · have hbound : rest.length < 0 := bound_of_outcome hread
        exact absurd hbound (Nat.not_lt_zero _)
      · rename_i lexeme after hafter
        -- the lexeme behind the parenthesis comes before the continuation
        have hle' : tail.length ≤ after.length := by
          split at hread
          · exact Nat.le_trans hlonger
              (Nat.le_of_eq (congrArg (List.length ·.2) (Except.ok.inj hread)).symm)
          · have hbound : rest.length < (lexeme :: after).length := bound_of_outcome hread
            exact Nat.le_trans hlonger (Nat.le_of_lt_succ hbound)
        obtain ⟨back, hback, rfl, hafter', hblanks⟩ := halike.afterBlanks_eq_cons hafter hle'
        rw [hafter', hblanks]
        dsimp only
        split at hread
        · rename_i hcloser
          obtain ⟨rfl, rfl⟩ := Prod.mk.inj (Except.ok.inj hread)
          refine ⟨back, ?_, rfl, if_pos hcloser⟩
          exact (List.suffix_cons _ _).trans (hback.trans (List.suffix_cons _ _))
        · rename_i hcloser
          rw [if_neg hcloser, ← List.cons_append]
          have hshorter : (lexeme :: back).length < n :=
            Nat.lt_of_le_of_lt hback.length_le (Nat.lt_of_succ_le hlength)
          exact (h.arguments halike _ hshorter).mono (hback.trans (List.suffix_cons _ _)) tree rest
            hread hle
    · cases hread

/-- **Operands agree**, by cases on the first lexeme. -/
theorem RowsAgree.primary (h : RowsAgree finish n tail tail') (halike : Alike tail tail')
    {front : List Lexeme} (hlength : front.length ≤ n) :
    Agrees front tail tail' (outcome (readPrimary finish (front ++ tail)))
      (outcome (readPrimary finish (front ++ tail'))) := by
  cases front with
  | nil => exact agrees_of_lt fun found hfound => bound_of_outcome hfound
  | cons first front =>
    rw [List.cons_append, List.cons_append, outcome_readPrimary, outcome_readPrimary]
    obtain ⟨kind, text, start⟩ := first
    have hshorter : front.length < n := hlength
    have hbehind := List.suffix_cons (⟨kind, text, start⟩ : Lexeme) front
    -- an operand is a lexeme alone: nothing behind it is looked at
    have hleft : Agrees (⟨kind, text, start⟩ :: front) tail tail'
        (.ok (Lexeme.token ⟨kind, text, start⟩, front ++ tail))
        (.ok (Lexeme.token ⟨kind, text, start⟩, front ++ tail')) := by
      intro tree rest hread _
      obtain ⟨rfl, rfl⟩ := Prod.mk.inj (Except.ok.inj hread)
      exact ⟨front, hbehind, rfl, rfl⟩
    have hnone (fault : SyntaxError) :
      Agrees (⟨kind, text, start⟩ :: front) tail tail' (.error fault)
        (.error (faultAt finish (⟨kind, text, start⟩ :: (front ++ tail')) (.unexpected text))) :=
      fun _ _ hread => nomatch hread
    cases kind with
    | number | text | boolean | error | label => exact hleft
    | cell => exact (halike.readReference_agrees _ front).mono hbehind
    | functionName => exact (h.call halike _ (Nat.le_of_lt hshorter)).mono hbehind
    | mark mark =>
      cases mark with
      | parenthesisOpen => exact (h.group halike _ hshorter).mono hbehind
      | _ => exact hnone _
    | _ => exact hnone _

/-- **Minus signs agree**, and the operands behind them. -/
theorem RowsAgree.unary (h : RowsAgree finish n tail tail') (halike : Alike tail tail')
    {front : List Lexeme} (hlength : front.length ≤ n) :
    Agrees front tail tail' (outcome (readUnary finish (front ++ tail)))
      (outcome (readUnary finish (front ++ tail'))) := by
  induction hfront : front.length using Nat.strongRecOn generalizing front with
  | _ length ih =>
  subst hfront
  cases front with
  | nil => exact agrees_of_lt fun found hfound => bound_of_outcome hfound
  | cons first front =>
    rw [List.cons_append, List.cons_append, outcome_readUnary, outcome_readUnary]
    intro tree rest hread hle
    split at hread
    · rename_i hminus
      rw [if_pos hminus]
      obtain ⟨⟨operand, mid⟩, hoperand, hread⟩ := exists_of_map_eq_ok hread
      obtain ⟨rfl, rfl⟩ := Prod.mk.inj hread
      -- what the operand leaves is as long as the tail at least, so the blanks
      -- before the operand end in front of the tail
      have hbound : mid.length < (afterBlanks (front ++ tail)).length := bound_of_outcome hoperand
      have hlonger := Nat.lt_of_le_of_lt (Nat.le_trans hle (length_afterBlanks mid)) hbound
      obtain ⟨inner, hinner, heq, heq', hblanks⟩ :=
        halike.afterBlanks_eq (Nat.le_of_lt hlonger)
      rw [heq] at hoperand
      have hshorter : inner.length < (first :: front).length := Nat.lt_succ_of_le hinner.length_le
      obtain ⟨back, hback, rfl, hoperand'⟩ := ih inner.length hshorter
        (Nat.le_trans (Nat.le_of_lt hshorter) hlength) rfl operand mid hoperand hle
      refine ⟨back, hback.trans (hinner.trans (List.suffix_cons _ _)), rfl, ?_⟩
      rw [heq', hoperand', hblanks]
      rfl
    · rename_i hminus
      rw [if_neg hminus]
      obtain ⟨⟨operand, mid⟩, hoperand, hread⟩ := exists_of_map_eq_ok hread
      have hmid := length_afterBlanks_readPercents operand mid
      rw [hread] at hmid
      obtain ⟨back, hback, rfl, hoperand'⟩ :=
        h.primary halike hlength operand mid hoperand (Nat.le_trans hle hmid)
      rw [← List.cons_append, hoperand']
      exact (halike.readPercents_agrees operand back).mono hback tree rest
        (congrArg Except.ok hread) hle

/-- **Operators agree**, with the operands behind them, by induction on the rest
of the front. -/
theorem RowsAgree.operations (h : RowsAgree finish n tail tail') (halike : Alike tail tail')
    (least : Nat) (left : Token) {front : List Lexeme} (hlength : front.length ≤ n) :
    Agrees front tail tail' (outcome (readOperations finish least left (front ++ tail)))
      (outcome (readOperations finish least left (front ++ tail'))) := by
  induction hfront : front.length using Nat.strongRecOn generalizing left front with
  | _ length ih =>
  subst hfront
  intro tree rest hread hle
  have hlonger : tail.length ≤ (afterBlanks (front ++ tail)).length :=
    Nat.le_trans hle (length_afterBlanks_readOperations hread)
  obtain ⟨back, hback, hafter, hafter', hblanks⟩ := halike.afterBlanks_eq hlonger
  rw [outcome_readOperations, hafter] at hread
  rw [outcome_readOperations, hafter', hblanks]
  cases hmore : back ++ tail with
  | nil =>
    rw [hmore] at hread
    rw [halike.eq_nil hmore]
    obtain ⟨rfl, rfl⟩ := Prod.mk.inj (Except.ok.inj hread)
    exact ⟨front, List.suffix_rfl, rfl, rfl⟩
  | cons lexeme more =>
  rw [hmore] at hread
  obtain ⟨more', hmore'⟩ := halike.exists_cons hmore
  rw [hmore']
  dsimp only at hread ⊢
  split at hread
  · obtain ⟨rfl, rfl⟩ := Prod.mk.inj (Except.ok.inj hread)
    exact ⟨front, List.suffix_rfl, rfl, rfl⟩
  · rename_i operator hoperator
    split at hread
    · obtain ⟨rfl, rfl⟩ := Prod.mk.inj (Except.ok.inj hread)
      exact ⟨front, List.suffix_rfl, rfl, if_pos ‹_›⟩
    · rw [if_neg ‹_›]
      obtain ⟨⟨right, after⟩, hright, hread⟩ := exists_of_bind_eq_ok hread
      have hle' := Nat.le_trans hle (length_afterBlanks_readOperations hread)
      have hbound : after.length < (afterBlanks more).length := bound_of_outcome hright
      have hlength' : tail.length ≤ more.length := Nat.le_trans hle'
        (Nat.le_trans (length_afterBlanks after)
          (Nat.le_of_lt (Nat.lt_of_lt_of_le hbound (length_afterBlanks more))))
      -- so the operator comes before the continuation
      obtain ⟨between, rfl, rfl⟩ := append_eq_cons hmore hlength'
      obtain rfl : between ++ tail' = more' := (List.cons.inj hmore').2
      have hshorter : between.length < front.length := hback.length_le
      obtain ⟨inner, hsuffix, hinner, rfl, hright', hblanks'⟩ :=
        h.behindBlanks halike (Nat.lt_of_lt_of_le hshorter hlength) hright hle'
      have hinner' := Nat.lt_trans hinner hshorter
      rw [hright', hblanks']
      exact (ih inner.length hinner' _ (Nat.le_trans (Nat.le_of_lt hinner') hlength) rfl).mono
        (hsuffix.trans ((List.suffix_cons _ _).trans hback)) tree rest hread hle

/-- **Rows of operands agree** when those with a shorter front do. -/
theorem RowsAgree.binary (h : RowsAgree finish n tail tail') (halike : Alike tail tail')
    (least : Nat) {front : List Lexeme} (hlength : front.length ≤ n) :
    Agrees front tail tail' (outcome (readBinary finish least (front ++ tail)))
      (outcome (readBinary finish least (front ++ tail'))) := by
  intro tree rest hread hle
  rw [outcome_readBinary] at hread ⊢
  obtain ⟨⟨left, mid⟩, hleft, hread⟩ := exists_of_bind_eq_ok hread
  have hmid := length_afterBlanks_readOperations hread
  obtain ⟨back, hback, rfl, hleft'⟩ :=
    h.unary halike hlength left mid hleft (Nat.le_trans hle hmid)
  rw [hleft']
  exact (h.operations halike least left (Nat.le_trans hback.length_le hlength)).mono hback tree rest
    hread hle

/-- **All rows of operands agree**, by induction on the length of their fronts.
Each of the readers has its step above, from `RowsAgree.group` to
`RowsAgree.binary`. -/
theorem rowsAgree (finish n : Nat) (halike : Alike tail tail') : RowsAgree finish n tail tail' := by
  induction n with
  | zero => exact fun front hlength => absurd hlength (Nat.not_lt_zero _)
  | succ n ih => exact fun front hlength least => ih.binary halike least (Nat.le_of_lt_succ hlength)

/-! ## What is left over -/

/-- **What is left over behind a row of operands** stands at the end of what it
was read from. It is read off `rowsAgree` with the same continuation on both
sides. -/
theorem suffix_of_readBinary {least : Nat} {input : List Lexeme} {found : Token × List Lexeme}
    (hread : outcome (readBinary finish least input) = .ok found) : found.2 <:+ input := by
  have hagrees := rowsAgree finish (input.length + 1) .nil input (Nat.lt_succ_self _) least
  rw [List.append_nil] at hagrees
  obtain ⟨back, hback, hrest, -⟩ := hagrees found.1 found.2 hread (Nat.zero_le _)
  rwa [hrest, List.append_nil]

theorem suffix_of_readUnary {input : List Lexeme} {found : Token × List Lexeme}
    (hread : outcome (readUnary finish input) = .ok found) : found.2 <:+ input := by
  have hagrees := (rowsAgree finish input.length .nil).unary .nil (Nat.le_refl _)
  rw [List.append_nil] at hagrees
  obtain ⟨back, hback, hrest, -⟩ := hagrees found.1 found.2 hread (Nat.zero_le _)
  rwa [hrest, List.append_nil]

end Worksheet.Formula
