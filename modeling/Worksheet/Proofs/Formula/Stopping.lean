import Worksheet.Proofs.Formula.Grammar
import Worksheet.Proofs.Formula.Lookahead

/-!
# Where the readers stop

A reader that fails does so at a lexeme, or at the end. What was used before it
is not to blame: some other lexemes behind it would have made up what was to be
read (`Viable`). And the lexeme is to blame by itself: whatever comes behind it,
the reader fails (`StopsBehind`). Only a colon is judged together with the cell
behind it.

For each reader this follows from the same for the readers it calls. It fails as
one of them does (`Stops.as`, `Stops.behindBlanks`, `Stops.behindSign`), or
behind what one of them has read, which it reads again when something else comes
behind the lexeme in question (`Takes.stops`, `stops_next`). At the end of it
stands that no formula begins with what was used and that lexeme
(`exists_stop_of_ofLexemes?`).
-/

namespace Worksheet.Formula

open Token

/-! ## Stopping

An error at a lexeme says two things, one about what is before it and one about
what is behind it. `StopsBehind` has both: some other ending would have done,
and no ending will do that begins with this lexeme. -/

/-- **A part can begin with some lexemes**: with others behind them they make it
up, in the sense of `Derives`. -/
def Viable (part : Part) (used : List Lexeme) : Prop :=
  ∃ more : List Lexeme, Derives part ((used ++ more).map Lexeme.token)

/-- **A reader stops behind some lexemes.** They are not to blame: what is read
can begin with them, after those that came before. What is behind them is, since
nothing that looks alike (`Alike`) will do. -/
structure StopsBehind {α : Type} (finish : Nat) (part : Part) (before : List Lexeme)
    (read : List Lexeme → Except SyntaxError α) (used rest : List Lexeme) (error : SyntaxError) :
    Prop where
  /-- The error is at the lexeme behind them. -/
  located : ∃ fault, error = faultAt finish rest fault
  /-- The part can begin with them. -/
  viable : Viable part (before ++ used)
  /-- It cannot go on so. -/
  stuck : ∀ rest', Alike rest rest' → ∃ error', read (used ++ rest') = .error error'

/-- **A reader stops** somewhere in its lexemes, of which those in front of the
place are used. -/
def Stops {α : Type} (finish : Nat) (part : Part) (before : List Lexeme)
    (read : List Lexeme → Except SyntaxError α) (input : List Lexeme) (error : SyntaxError) :
    Prop :=
  ∃ used rest, input = used ++ rest ∧ StopsBehind finish part before read used rest error

variable {finish n : Nat}

/-- **What is read from the front of some lexemes** is read again when something
else comes behind the lexeme that is next to be looked at. So an error further
on is no concern of what was read. -/
def Takes (read : List Lexeme → Except SyntaxError (Token × List Lexeme)) (front : List Lexeme)
    (tree : Token) (rest : List Lexeme) : Prop :=
  ∀ used tail tail', rest = used ++ tail → Alike tail tail' →
    tail.length ≤ (afterBlanks rest).length →
      read (front ++ (used ++ tail')) = .ok (tree, used ++ tail')

/-! ## Lexemes that are used

A part that was read is read again when other lexemes come behind it, as long
as the next one looks alike. The reader looks ahead by a single lexeme, blanks
aside, so no more than that is asked. -/

def leading (input : List Lexeme) : List Lexeme :=
  input.takeWhile Lexeme.isBlank

theorem allBlank_leading (input : List Lexeme) : AllBlank ((leading input).map Lexeme.token) :=
  allBlank_blanks input

theorem eq_leading_append (input : List Lexeme) : input = leading input ++ afterBlanks input :=
  (List.takeWhile_append_dropWhile).symm

/-- **Blanks are passed over as before** when something that looks alike comes
behind. -/
theorem Alike.afterBlanks_append {rest rest' spaces used : List Lexeme} (h : Alike rest rest')
    (hafter : afterBlanks (spaces ++ (used ++ rest)) = used ++ rest) :
    afterBlanks (spaces ++ (used ++ rest')) = used ++ rest' ∧
      blanks (spaces ++ (used ++ rest')) = blanks (spaces ++ (used ++ rest)) := by
  rw [← List.append_assoc] at hafter
  rw [← List.append_assoc, ← List.append_assoc]
  have hle : rest.length ≤ (afterBlanks (spaces ++ used ++ rest)).length := by
    rw [hafter, List.length_append]
    exact Nat.le_add_left _ _
  obtain ⟨back, -, heq, heq', hblanks⟩ := h.afterBlanks_eq hle
  exact ⟨by rw [heq', List.append_cancel_right (heq.symm.trans hafter)], hblanks⟩

theorem Alike.afterBlanks_leading {input rest' : List Lexeme}
    (h : Alike (afterBlanks input) rest') :
    afterBlanks (leading input ++ rest') = rest' := by
  have hafter : afterBlanks (leading input ++ ([] ++ afterBlanks input))
      = [] ++ afterBlanks input := by
    rw [List.nil_append, ← eq_leading_append]
  exact (h.afterBlanks_append hafter).1

theorem ReadOff.derives {least : Nat} {taken rest : List Lexeme} {tree : Token}
    (h : ReadOff least (taken ++ rest) (tree, rest)) :
    Derives .expression (taken.map Lexeme.token) := by
  have hleaves := h.leaves
  rw [List.map_append] at hleaves
  rw [List.append_cancel_right hleaves]
  exact (h.shaped.derives h.binds).expression

/-- **A row of operands** takes the front of its lexemes, and would have taken
it with others behind. -/
theorem exists_takes_readBinary {least : Nat} (hleast : least ≤ Expression.negativePriority)
    {input rest : List Lexeme} {tree : Token}
    (hread : outcome (readBinary finish least input) = .ok (tree, rest)) :
    ∃ taken : List Lexeme, input = taken ++ rest ∧ Derives .expression (taken.map Lexeme.token) ∧
      Takes (fun input => outcome (readBinary finish least input)) taken tree rest := by
  obtain ⟨taken, rfl⟩ : rest <:+ input := suffix_of_readBinary hread
  have hread' := readsRows finish _ _ (Nat.lt_succ_self _) least hleast _ hread
  refine ⟨taken, rfl, hread'.1.derives, ?_⟩
  rintro used tail tail' rfl halike hle
  rw [← List.append_assoc] at hread ⊢
  obtain ⟨back, -, heq, hagain⟩ :=
    rowsAgree finish _ halike _ (Nat.lt_succ_self _) least tree _ hread hle
  exact hagain.trans (by rw [List.append_cancel_right heq])

theorem exists_takes_readUnary {input rest : List Lexeme} {tree : Token}
    (hread : outcome (readUnary finish input) = .ok (tree, rest)) :
    ∃ taken : List Lexeme, input = taken ++ rest ∧ Derives .expression (taken.map Lexeme.token) ∧
      Takes (fun input => outcome (readUnary finish input)) taken tree rest := by
  obtain ⟨taken, rfl⟩ : rest <:+ input := suffix_of_readUnary hread
  have hread' := (readsRows finish _).unary (Nat.le_refl _) hread
  refine ⟨taken, rfl, hread'.derives, ?_⟩
  rintro used tail tail' rfl halike hle
  rw [← List.append_assoc] at hread ⊢
  obtain ⟨back, -, heq, hagain⟩ :=
    (rowsAgree finish _ halike).unary halike (Nat.le_refl _) tree _ hread hle
  exact hagain.trans (by rw [List.append_cancel_right heq])

/-- **Behind blanks a row of operands** takes what it would without them. -/
theorem exists_takes_behindBlanks {least : Nat} (hleast : least ≤ Expression.negativePriority)
    {input rest : List Lexeme} {tree : Token}
    (hread : outcome (readBinary finish least (afterBlanks input)) = .ok (tree, rest)) :
    ∃ taken : List Lexeme, input = leading input ++ taken ++ rest ∧
      Derives .expression (taken.map Lexeme.token) ∧
      Takes (fun input => outcome (readBinary finish least (afterBlanks input)))
        (leading input ++ taken) tree rest := by
  obtain ⟨taken, hafter, hderives, htakes⟩ := exists_takes_readBinary hleast hread
  have hinput := eq_leading_append input
  rw [hafter] at hinput
  refine ⟨taken, hinput.trans (List.append_assoc ..).symm, hderives, ?_⟩
  rintro used tail tail' rfl halike hle
  rw [← List.append_assoc taken] at hafter hinput
  show outcome (readBinary finish least (afterBlanks _)) = _
  rw [List.append_assoc, ← List.append_assoc taken,
    (halike.afterBlanks_append (hinput ▸ hafter)).1, List.append_assoc]
  exact htakes used tail tail' rfl halike hle

/-! ## What can still be made of it

To show that a part can begin with some lexemes, an ending is written down for
each place where a reader may fail: an operand, or a closing parenthesis, or
nothing. -/

def Mark.lexeme (mark : Mark) : Lexeme :=
  ⟨.mark mark, mark.text, 0⟩

theorem Mark.isMark_lexeme (mark : Mark) : mark.lexeme.token.isMark mark = true :=
  beq_self_eq_true mark

theorem viable_primary : Viable .primary [] :=
  ⟨[⟨.boolean true, "TRUE".toList, 0⟩], .operand rfl⟩

theorem Viable.unary {used : List Lexeme} (h : Viable .primary used) : Viable .unary used := by
  obtain ⟨more, hmore⟩ := h
  exact ⟨more, .scaled (.primary hmore)⟩

theorem Viable.expression {used : List Lexeme} (h : Viable .unary used) :
    Viable .expression used := by
  obtain ⟨more, hmore⟩ := h
  exact ⟨more, hmore.expression_of_unary⟩

theorem viable_expression : Viable .expression [] :=
  viable_primary.unary.expression

/-- **A reader stops at once** when the part can begin with what came before,
and it fails at whatever looks alike. -/
theorem stops_here {α : Type} {part : Part} {before : List Lexeme}
    {read : List Lexeme → Except SyntaxError α} {input : List Lexeme} {error : SyntaxError}
    (herror : ∃ fault, error = faultAt finish input fault) (hviable : Viable part before)
    (hstuck : ∀ rest', Alike input rest' → ∃ error', read rest' = .error error') :
    Stops finish part before read input error := by
  refine ⟨[], input, rfl, herror, ?_, hstuck⟩
  rwa [List.append_nil]

theorem stops_nil {α : Type} {part : Part} {before : List Lexeme}
    {read : List Lexeme → Except SyntaxError α} {error : SyntaxError} {fault : SyntaxFault}
    (hread : read [] = .error (faultAt finish [] fault)) (hviable : Viable part before)
    (herror : read [] = .error error) : Stops finish part before read [] error := by
  refine stops_here ⟨fault, Except.error.inj (herror.symm.trans hread)⟩ hviable ?_
  rintro _ ⟨⟩
  exact ⟨error, herror⟩

theorem Stops.cons {α : Type} {part : Part} {before : List Lexeme} {lexeme : Lexeme}
    {read read' : List Lexeme → Except SyntaxError α} {input : List Lexeme} {error : SyntaxError}
    (hread : ∀ input, read (lexeme :: input) = read' input)
    (h : Stops finish part (before ++ [lexeme]) read' input error) :
    Stops finish part before read (lexeme :: input) error := by
  obtain ⟨used, rest, rfl, hstops⟩ := h
  refine ⟨lexeme :: used, rest, rfl, hstops.located, ?_, fun rest' halike => ?_⟩
  · rw [← List.singleton_append, ← List.append_assoc]
    exact hstops.viable
  · rw [List.cons_append, hread]
    exact hstops.stuck rest' halike

/-- **What fails as another reader does** stops where that one does. To be shown
is that the part can begin with what the other's part can begin with, and that
failing is handed on. -/
theorem Stops.as {α β : Type} {part part' : Part} {before before' : List Lexeme}
    {read : List Lexeme → Except SyntaxError α} {inner : List Lexeme → Except SyntaxError β}
    {input : List Lexeme} {error : SyntaxError}
    (h : Stops finish part' before' inner input error)
    (hviable : ∀ used, Viable part' (before' ++ used) → Viable part (before ++ used))
    (hfails : ∀ input' error', input'.head? = input.head? → inner input' = .error error' →
      ∃ error'', read input' = .error error'') :
    Stops finish part before read input error := by
  obtain ⟨used, rest, rfl, hstops⟩ := h
  refine ⟨used, rest, rfl, hstops.located, hviable used hstops.viable, fun rest' halike => ?_⟩
  obtain ⟨error', herror'⟩ := hstops.stuck rest' halike
  exact hfails _ error' (halike.head?_append used) herror'

/-- **What fails behind blanks** as another reader does stops where that one
does. -/
theorem Stops.behindBlanks {α β : Type} {part part' : Part} {before before' : List Lexeme}
    {read : List Lexeme → Except SyntaxError α} {inner : List Lexeme → Except SyntaxError β}
    {input : List Lexeme} {error : SyntaxError}
    (h : Stops finish part' before' inner (afterBlanks input) error)
    (hviable : ∀ used, Viable part' (before' ++ used) →
      Viable part (before ++ (leading input ++ used)))
    (hfails : ∀ input' error', (afterBlanks input').head? = (afterBlanks input).head? →
      blanks input' = blanks input → inner (afterBlanks input') = .error error' →
        ∃ error'', read input' = .error error'') :
    Stops finish part before read input error := by
  obtain ⟨used, rest, hafter, hstops⟩ := h
  have hinput := eq_leading_append input
  rw [hafter] at hinput
  refine ⟨leading input ++ used, rest, hinput.trans (List.append_assoc ..).symm, hstops.located,
    hviable used hstops.viable, fun rest' halike => ?_⟩
  obtain ⟨error', herror'⟩ := hstops.stuck rest' halike
  obtain ⟨hafter', hblanks⟩ := halike.afterBlanks_append (hinput ▸ hafter)
  rw [List.append_assoc]
  refine hfails _ error' ?_ (hblanks.trans (congrArg blanks hinput.symm)) ?_
  · rw [hafter', hafter]
    exact halike.head?_append used
  · rw [hafter']
    exact herror'

/-- **A reader stops past the blanks** at the front of its lexemes: all of them
are used. -/
def StopsPastBlanks {α : Type} (finish : Nat) (part : Part) (before : List Lexeme)
    (read : List Lexeme → Except SyntaxError α) (input : List Lexeme) (error : SyntaxError) :
    Prop :=
  ∃ used rest, input = used ++ rest ∧ rest.length ≤ (afterBlanks input).length ∧
    StopsBehind finish part before read used rest error

/-- **Behind what was taken** a reader stops as the one does that goes on
there. -/
theorem Takes.stops {α β : Type} {part : Part} {before front mid : List Lexeme} {tree : Token}
    {first : List Lexeme → Except SyntaxError (Token × List Lexeme)}
    {next : List Lexeme → Except SyntaxError β} {read : List Lexeme → Except SyntaxError α}
    {error : SyntaxError} (htakes : Takes first front tree mid)
    (h : StopsPastBlanks finish part (before ++ front) next mid error)
    (hfails : ∀ rest' error', first (front ++ rest') = .ok (tree, rest') →
      next rest' = .error error' → ∃ error'', read (front ++ rest') = .error error'') :
    Stops finish part before read (front ++ mid) error := by
  obtain ⟨used, rest, hmid, hle, hstops⟩ := h
  refine ⟨front ++ used, rest, ?_, hstops.located, ?_, fun rest' halike => ?_⟩
  · rw [List.append_assoc, ← hmid]
  · rw [← List.append_assoc]
    exact hstops.viable
  · obtain ⟨error', herror'⟩ := hstops.stuck rest' halike
    rw [List.append_assoc]
    exact hfails _ error' (htakes used rest rest' hmid halike hle) herror'

/-- **Behind what was taken a reader stops** at the next lexeme, when it only
looks at that one to tell whether it is done. -/
theorem stops_next {α : Type} {part : Part} {before front mid : List Lexeme} {tree : Token}
    {read : List Lexeme → Except SyntaxError α}
    {inner : List Lexeme → Except SyntaxError (Token × List Lexeme)} {error : SyntaxError}
    (htakes : Takes inner front tree mid) (done : Option Lexeme → Bool)
    (hviable : Viable part (before ++ (front ++ leading mid)))
    (hdone : ∀ input' mid', inner input' = .ok (tree, mid') →
      (afterBlanks mid').head? = (afterBlanks mid).head? →
        ∃ found fault, read input' = if done (afterBlanks mid').head? then .ok found
          else .error (faultAt finish (afterBlanks mid') fault))
    (hread : read (front ++ mid) = .error error) :
    Stops finish part before read (front ++ mid) error := by
  have hmid := eq_leading_append mid
  have hnext : ∀ rest', Alike (afterBlanks mid) rest' → ∃ found fault,
      read (front ++ (leading mid ++ rest')) = if done (afterBlanks mid).head? then .ok found
        else .error (faultAt finish rest' fault) := fun rest' halike => by
    have hafter := halike.afterBlanks_leading
    have hhead : (afterBlanks (leading mid ++ rest')).head? = (afterBlanks mid).head? := by
      rw [hafter]
      exact halike.head?_append []
    have hdone' := hdone _ _ (htakes _ _ rest' hmid halike (Nat.le_refl _)) hhead
    rwa [hhead, hafter] at hdone'
  obtain ⟨found, fault, hhere⟩ := hnext _ (.refl _)
  rw [← hmid, hread] at hhere
  split at hhere
  · cases hhere
  · rename_i hnot
    refine ⟨front ++ leading mid, afterBlanks mid, ?_, ⟨fault, Except.error.inj hhere⟩,
      hviable, fun rest' halike => ?_⟩
    · rw [List.append_assoc, ← hmid]
    · obtain ⟨found', fault', hthere⟩ := hnext rest' halike
      rw [List.append_assoc, hthere, if_neg hnot]
      exact ⟨_, rfl⟩

/-- **Behind a sign and blanks a reader stops** as the one does that goes on
there. The sign is found again whatever comes behind what is used. -/
theorem Stops.behindSign {α : Type} {part part' : Part} {before before' : List Lexeme}
    {read inner : List Lexeme → Except SyntaxError α} {input after : List Lexeme} {sign : Lexeme}
    {error : SyntaxError} (hafter : afterBlanks input = sign :: after)
    (h : Stops finish part' before' inner (afterBlanks after) error)
    (hviable : ∀ used, Viable part' (before' ++ used) →
      Viable part (before ++ (leading input ++ sign :: (leading after ++ used))))
    (hread : ∀ used rest rest' after', input = used ++ rest →
      rest.length ≤ (afterBlanks input).length → Alike rest rest' →
        afterBlanks (used ++ rest') = sign :: after' → blanks (used ++ rest') = blanks input →
          blanks after' = blanks after → read (used ++ rest') = inner (afterBlanks after')) :
    StopsPastBlanks finish part before read input error := by
  obtain ⟨used, rest, hused, hstops⟩ := h
  have hbehind := eq_leading_append after
  rw [hused] at hbehind
  have hsign : afterBlanks input = sign :: (leading after ++ used) ++ rest := by
    rw [hafter, List.cons_append, List.append_assoc, ← hbehind]
  have hinput := eq_leading_append input
  rw [hsign] at hinput
  have hinput' : input = leading input ++ sign :: (leading after ++ used) ++ rest := by
    rw [List.append_assoc, ← hinput]
  have hle : rest.length ≤ (afterBlanks input).length := by
    rw [hsign, List.length_append]
    exact Nat.le_add_left _ _
  refine ⟨_, rest, hinput', hle, hstops.located, hviable used hstops.viable, fun rest' halike => ?_⟩
  obtain ⟨error', herror'⟩ := hstops.stuck rest' halike
  obtain ⟨hafter', hblanks⟩ := halike.afterBlanks_append (hinput ▸ hsign)
  obtain ⟨hused', hblanks'⟩ := halike.afterBlanks_append (hbehind ▸ hused)
  refine ⟨error', ?_⟩
  rw [hread _ rest rest' (leading after ++ (used ++ rest')) hinput' hle halike ?_ ?_ ?_, hused']
  · exact herror'
  · rw [List.append_assoc, hafter', List.cons_append, List.append_assoc]
  · rw [List.append_assoc, hblanks, ← hinput]
  · rw [hblanks', ← hbehind]

/-! ## Groups and calls

Each of the next sections takes the rows of operands below it for granted
(`RowsStop`). What remains for a group or a call is its opening, its commas and
its end, with a lemma for each place where the reader may turn back. -/

/-- Rows of operands stop well on fewer lexemes than a number. As `ReadsRows`
does for what is read, it stands for the readers below when each is looked at by
itself. -/
def RowsStop (finish n : Nat) : Prop :=
  ∀ input : List Lexeme, input.length < n → ∀ least ≤ Expression.negativePriority, ∀ error,
    outcome (readBinary finish least input) = .error error →
      Stops finish .expression [] (fun input => outcome (readBinary finish least input)) input error

def isNext (mark : Mark) (next : Option Lexeme) : Bool :=
  next.any fun lexeme => lexeme.kind.isMark mark

/-- Behind its row of operands a group is closed or not, and it only looks at
the next lexeme to tell. -/
theorem readGroup_of_body {opener : Lexeme} {input mid : List Lexeme} {body : Token}
    (hbody : outcome (readBinary finish 0 (afterBlanks input)) = .ok (body, mid)) :
    ∃ found fault, outcome (readGroup finish opener input)
      = if isNext .parenthesisClose (afterBlanks mid).head? then .ok found
        else .error (faultAt finish (afterBlanks mid) fault) := by
  rw [outcome_readGroup, hbody]
  dsimp only [Except.bind]
  split
  · rename_i closer after hafter
    rw [hafter]
    exact ⟨_, _, rfl⟩
  · rename_i hafter
    rw [hafter]
    exact ⟨(body, []), _, rfl⟩

/-- **A group stops** in its row of operands, or where it should be closed. -/
theorem RowsStop.group (h : RowsStop finish n) {opener : Lexeme} {input : List Lexeme}
    (hopener : opener.token.isMark .parenthesisOpen = true) (hlength : input.length < n)
    {error : SyntaxError} (hread : outcome (readGroup finish opener input) = .error error) :
    Stops finish .primary [opener] (fun input => outcome (readGroup finish opener input)) input
      error := by
  have hcloser := Mark.isMark_lexeme .parenthesisClose
  cases hbody : outcome (readBinary finish 0 (afterBlanks input)) with
  | error fault =>
    rw [outcome_readGroup, hbody] at hread
    obtain rfl := Except.error.inj hread
    have hshorter := Nat.lt_of_le_of_lt (length_afterBlanks input) hlength
    refine (h _ hshorter 0 (Nat.zero_le _) _ hbody).behindBlanks ?_ ?_
    · rintro used ⟨more, hmore⟩
      have hgroup := Derives.group hopener (allBlank_leading input) hmore allBlank_nil hcloser
      exact ⟨more ++ [Mark.parenthesisClose.lexeme], by simpa using hgroup⟩
    · intro input' error' _ _ herror'
      exact ⟨error', by rw [outcome_readGroup, herror']; rfl⟩
  | ok found =>
    obtain ⟨body, mid⟩ := found
    obtain ⟨taken, hinput, htaken, htakes⟩ := exists_takes_behindBlanks (Nat.zero_le _) hbody
    have hgroup :=
      Derives.group hopener (allBlank_leading input) htaken (allBlank_leading mid) hcloser
    have hviable : Viable .primary ([opener] ++ (leading input ++ taken ++ leading mid)) :=
      ⟨[Mark.parenthesisClose.lexeme], by simpa using hgroup⟩
    rw [hinput] at hread ⊢
    exact stops_next htakes (isNext .parenthesisClose) hviable
      (fun _ _ hbody' _ => readGroup_of_body hbody') hread

theorem readArguments_comma {front : List Token} {input mid after : List Lexeme}
    {argument : Token} {comma : Lexeme}
    (hargument : outcome (readBinary finish 0 input) = .ok (argument, mid))
    (hafter : afterBlanks mid = comma :: after) (hcomma : comma.kind.isMark .separator = true) :
    outcome (readArguments finish front input) = outcome (readArguments finish
      (front ++ argument :: blanks mid ++ [comma.token] ++ blanks after) (afterBlanks after)) := by
  rw [outcome_readArguments, hargument]
  dsimp only [Except.bind]
  rw [hafter]
  exact if_pos hcomma

theorem readArguments_of_argument {front : List Token} {input mid : List Lexeme}
    {argument : Token} (hargument : outcome (readBinary finish 0 input) = .ok (argument, mid))
    (hcomma : isNext .separator (afterBlanks mid).head? = false) :
    ∃ found fault, outcome (readArguments finish front input)
      = if isNext .parenthesisClose (afterBlanks mid).head? then .ok found
        else .error (faultAt finish (afterBlanks mid) fault) := by
  rw [outcome_readArguments, hargument]
  dsimp only [Except.bind]
  split
  · rename_i hafter
    rw [hafter]
    exact ⟨(argument, []), _, rfl⟩
  · rename_i lexeme after hafter
    rw [hafter] at hcomma ⊢
    rw [if_neg (Bool.not_eq_true _ ▸ hcomma)]
    exact ⟨_, _, rfl⟩

theorem stops_arguments_comma {front : List Token} {taken mid after : List Lexeme}
    {argument : Token} {comma : Lexeme} {error : SyntaxError}
    (htaken : Derives .expression (taken.map Lexeme.token))
    (htakes : Takes (fun input => outcome (readBinary finish 0 input)) taken argument mid)
    (hafter : afterBlanks mid = comma :: after) (hcomma : comma.kind.isMark .separator = true)
    (h : Stops finish .arguments [] (fun input => outcome (readArguments finish
      (front ++ argument :: blanks mid ++ [comma.token] ++ blanks after) input))
      (afterBlanks after) error) :
    Stops finish .arguments [] (fun input => outcome (readArguments finish front input))
      (taken ++ mid) error := by
  refine htakes.stops (h.behindSign hafter ?_ ?_) fun rest' error' _ herror' => ⟨error', herror'⟩
  · rintro used ⟨more, hmore⟩
    have hmark : comma.token.isMark .separator = true := hcomma
    have hargument :=
      Derives.argument htaken (allBlank_leading mid) hmark (allBlank_leading after) hmore
    exact ⟨more, by simpa using hargument⟩
  · intro used rest rest' after' hmid hle halike hafter' hblanks hblanks'
    rw [readArguments_comma (htakes used rest rest' hmid halike hle) hafter' hcomma, hblanks,
      hblanks']

/-- **Arguments stop** in one of them, or where a comma or the closing
parenthesis should stand. -/
theorem RowsStop.arguments (h : RowsStop finish n) (front : List Token) {input : List Lexeme}
    (hlength : input.length < n) {error : SyntaxError}
    (hread : outcome (readArguments finish front input) = .error error) :
    Stops finish .arguments [] (fun input => outcome (readArguments finish front input)) input
      error := by
  induction hinput : input.length using Nat.strongRecOn generalizing front input with
  | _ length ih =>
  subst hinput
  cases hargument : outcome (readBinary finish 0 input) with
  | error fault =>
    rw [outcome_readArguments, hargument] at hread
    obtain rfl := Except.error.inj hread
    refine (h _ hlength 0 (Nat.zero_le _) _ hargument).as ?_ ?_
    · rintro used ⟨more, hmore⟩
      -- whatever completes the argument completes the list of arguments
      have hlast := Derives.lastArgument hmore allBlank_nil
      exact ⟨more, by simpa using hlast⟩
    · intro input' error' _ herror'
      exact ⟨error', by rw [outcome_readArguments, herror']; rfl⟩
  | ok found =>
    obtain ⟨argument, mid⟩ := found
    obtain ⟨taken, rfl, htaken, htakes⟩ := exists_takes_readBinary (Nat.zero_le _) hargument
    cases hcomma : isNext .separator (afterBlanks mid).head? with
    | true =>
      obtain ⟨comma, hhead, hcomma⟩ := (Option.any_eq_true _ _).1 hcomma
      obtain ⟨after, hafter⟩ := List.head?_eq_some_iff.1 hhead
      rw [readArguments_comma hargument hafter hcomma] at hread
      -- a comma goes on with the next argument, on a shorter input
      have hshorter : (afterBlanks after).length < (taken ++ mid).length := by
        have hmid := length_afterBlanks mid
        have hbehind := length_afterBlanks after
        rw [hafter, List.length_cons] at hmid
        rw [List.length_append]
        omega
      exact stops_arguments_comma htaken htakes hafter hcomma
        (ih _ hshorter _ (Nat.lt_trans hshorter hlength) hread rfl)
    | false =>
      have hlast := Derives.lastArgument htaken (allBlank_leading mid)
      have hviable : Viable .arguments ([] ++ (taken ++ leading mid)) := ⟨[], by simpa using hlast⟩
      exact stops_next htakes (isNext .parenthesisClose) hviable
        (fun _ _ hargument' hhead => readArguments_of_argument hargument' (hhead ▸ hcomma)) hread

theorem readCall_opened {name opener : Lexeme} {input : List Lexeme}
    (hopener : opener.kind.isMark .parenthesisOpen = true)
    (hcloser : isNext .parenthesisClose (afterBlanks input).head? = false) :
    outcome (readCall finish name (opener :: input)) = outcome (readArguments finish
      (name.token :: opener.token :: blanks input) (afterBlanks input)) := by
  rw [outcome_readCall, if_pos hopener]
  split
  · rename_i hafter
    rw [hafter]
  · rename_i lexeme after hafter
    rw [hafter] at hcloser ⊢
    exact if_neg (Bool.not_eq_true _ ▸ hcloser)

/-- A call that is closed at once is read, so one that fails is not. -/
theorem not_closed_of_readCall {name opener : Lexeme} {input : List Lexeme} {error : SyntaxError}
    (hopener : opener.kind.isMark .parenthesisOpen = true)
    (hread : outcome (readCall finish name (opener :: input)) = .error error) :
    isNext .parenthesisClose (afterBlanks input).head? = false := by
  rw [outcome_readCall, if_pos hopener] at hread
  split at hread
  · rename_i hafter
    rw [hafter]
    rfl
  · rename_i lexeme after hafter
    rw [hafter]
    split at hread
    · cases hread
    · exact Bool.eq_false_iff.2 ‹_›

/-- **A call stops** behind its name when it is not opened, and else in its
arguments. -/
theorem RowsStop.call (h : RowsStop finish n) {name : Lexeme} {input : List Lexeme}
    (hname : name.token.isFunctionName = true) (hlength : input.length ≤ n) {error : SyntaxError}
    (hread : outcome (readCall finish name input) = .error error) :
    Stops finish .primary [name] (fun input => outcome (readCall finish name input)) input
      error := by
  have hopened := Mark.isMark_lexeme .parenthesisOpen
  have hclosed := Mark.isMark_lexeme .parenthesisClose
  have hviable : Viable .primary [name] :=
    ⟨[Mark.parenthesisOpen.lexeme, Mark.parenthesisClose.lexeme],
      .emptyCall hname hopened allBlank_nil hclosed⟩
  cases input with
  | nil => exact stops_nil (outcome_readCall_nil finish name) hviable hread
  | cons opener input =>
    by_cases hopener : opener.kind.isMark .parenthesisOpen = true
    · -- a call that fails is not closed at once, so its arguments are read
      have hcloser := not_closed_of_readCall hopener hread
      rw [readCall_opened hopener hcloser] at hread
      have hshorter : (afterBlanks input).length < n :=
        Nat.lt_of_le_of_lt (length_afterBlanks input) hlength
      refine .cons (fun _ => rfl) ((h.arguments _ hshorter hread).behindBlanks ?_ ?_)
      · rintro used ⟨more, hmore⟩
        have hmark : opener.token.isMark .parenthesisOpen = true := hopener
        have hcall := Derives.call hname hmark (allBlank_leading input) hmore hclosed
        exact ⟨more ++ [Mark.parenthesisClose.lexeme], by simpa using hcall⟩
      · intro input' error' hhead hblanks herror'
        refine ⟨error', ?_⟩
        rw [readCall_opened hopener (hhead ▸ hcloser), hblanks]
        exact herror'
    · rw [outcome_readCall, if_neg hopener] at hread
      refine stops_here ⟨_, (Except.error.inj hread).symm⟩ hviable ?_
      rintro _ (_ | _)
      rw [outcome_readCall, if_neg hopener]
      exact ⟨_, rfl⟩

/-! ## Operands

Leaves are read from one lexeme, and so is a colon between cells after a look
ahead. Only what opens something, or a minus sign, can fail further on. -/

/-- **An operand stops** at its first lexeme, or in a group or a call. Leaves
and ranges do not stop. -/
theorem RowsStop.primary (h : RowsStop finish n) {input : List Lexeme} (hlength : input.length ≤ n)
    {error : SyntaxError} (hread : outcome (readPrimary finish input) = .error error) :
    Stops finish .primary [] (fun input => outcome (readPrimary finish input)) input error := by
  cases input with
  | nil => exact stops_nil (outcome_readPrimary_nil finish) viable_primary hread
  | cons lexeme rest =>
    obtain ⟨kind, text, start⟩ := lexeme
    have hlater (input : List Lexeme) := outcome_readPrimary finish ⟨kind, text, start⟩ input
    rw [hlater] at hread
    have hhere (herror : ∀ input, outcome (readPrimary finish (⟨kind, text, start⟩ :: input))
          = .error (faultAt finish (⟨kind, text, start⟩ :: input) (.unexpected text))) :
        Stops finish .primary [] (fun input => outcome (readPrimary finish input))
          (⟨kind, text, start⟩ :: rest) error := by
      rw [← hlater, herror] at hread
      refine stops_here ⟨_, (Except.error.inj hread).symm⟩ viable_primary ?_
      rintro _ (_ | _)
      exact ⟨_, herror _⟩
    cases kind with
    | number | text | boolean | error | label | cell => cases hread
    | functionName => exact .cons hlater (h.call rfl (Nat.le_of_succ_le hlength) hread)
    | mark mark =>
      cases mark with
      | parenthesisOpen => exact .cons hlater (h.group rfl hlength hread)
      | _ => exact hhere hlater
    | _ => exact hhere hlater

/-- **Minus signs** come before an operand that stops, by induction on the
lexemes. -/
theorem RowsStop.unary (h : RowsStop finish n) {input : List Lexeme} (hlength : input.length ≤ n)
    {error : SyntaxError} (hread : outcome (readUnary finish input) = .error error) :
    Stops finish .unary [] (fun input => outcome (readUnary finish input)) input error := by
  induction hinput : input.length using Nat.strongRecOn generalizing input with
  | _ length ih =>
  subst hinput
  cases input with
  | nil => exact stops_nil (outcome_readUnary_nil finish) viable_primary.unary hread
  | cons lexeme rest =>
    by_cases hminus : lexeme.kind.isMark (.operator .subtraction) = true
    · rw [outcome_readUnary, if_pos hminus] at hread
      have hshorter : (afterBlanks rest).length < (lexeme :: rest).length :=
        Nat.lt_succ_of_le (length_afterBlanks rest)
      have hoperand :=
        ih _ hshorter (Nat.le_trans (Nat.le_of_lt hshorter) hlength) (eq_error_of_map hread) rfl
      refine .cons (fun _ => rfl) (hoperand.behindBlanks ?_ ?_)
      · rintro used ⟨more, hmore⟩
        have hmark : lexeme.token.isMark (.operator .subtraction) = true := hminus
        have hnegative := Derives.negative hmark (allBlank_leading rest) hmore
        exact ⟨more, by simpa using hnegative⟩
      · intro input' error' _ _ herror'
        exact ⟨error', by rw [outcome_readUnary, if_pos hminus, herror']; rfl⟩
    · rw [outcome_readUnary, if_neg hminus] at hread
      refine (h.primary hlength (eq_error_of_map hread)).as (fun _ => Viable.unary) ?_
      intro input' error' hhead herror'
      obtain ⟨rest', rfl⟩ := List.head?_eq_some_iff.1 hhead
      exact ⟨error', by rw [outcome_readUnary, if_neg hminus, herror']; rfl⟩

/-! ## Rows of operands

An operator is taken with what stands behind it, so a failure is one of the
right operand or of the operators after that. Both are rows on fewer lexemes. -/

theorem exists_operator_of_readOperations {least : Nat} {left : Token} {input : List Lexeme}
    {error : SyntaxError}
    (hread : outcome (readOperations finish least left input) = .error error) :
    ∃ sign after operator, afterBlanks input = sign :: after ∧
      sign.kind.operator? = some operator ∧ ¬ operator.priority < least := by
  rw [outcome_readOperations] at hread
  split at hread
  · cases hread
  · rename_i sign after hafter
    split at hread
    · cases hread
    · rename_i operator hoperator
      split at hread
      · cases hread
      · exact ⟨sign, after, operator, hafter, hoperator, ‹_›⟩

/-- What is read behind an operator: its right operand, and the operators behind
that. It is the part of `readOperations` in which it can fail. -/
def readFurther (finish least : Nat) (operator : Operator) (front : List Token)
    (input : List Lexeme) : Except SyntaxError (Token × List Lexeme) :=
  (outcome (readBinary finish (operator.priority + 1) input)).bind fun found =>
    outcome (readOperations finish least (.join (.binary operator) (front ++ [found.1])) found.2)

theorem readOperations_operator {least : Nat} (left : Token) {input after : List Lexeme}
    {sign : Lexeme} {operator : Operator} (hafter : afterBlanks input = sign :: after)
    (hoperator : sign.kind.operator? = some operator) (hpriority : ¬ operator.priority < least) :
    outcome (readOperations finish least left input)
      = readFurther finish least operator (left :: blanks input ++ sign.token :: blanks after)
          (afterBlanks after) := by
  rw [outcome_readOperations, hafter]
  dsimp only
  rw [hoperator]
  exact if_neg hpriority

/-- **Behind an operator** its right operand stops, or the operators behind that
do. What to make of the latter is a hypothesis (`hbehind`), as they are on fewer
lexemes. -/
theorem RowsStop.further (h : RowsStop finish n) {least : Nat} {operator : Operator}
    {front : List Token} {before input : List Lexeme} {error : SyntaxError}
    (hlength : input.length < n)
    (hbefore : ∀ operand : List Lexeme, Derives .expression (operand.map Lexeme.token) →
      Derives .expression ((before ++ operand).map Lexeme.token))
    (hbehind : ∀ left (taken mid : List Lexeme), mid.length < input.length →
      Derives .expression (taken.map Lexeme.token) →
        outcome (readOperations finish least left mid) = .error error →
          StopsPastBlanks finish .expression taken
            (fun input => outcome (readOperations finish least left input)) mid error)
    (hread : readFurther finish least operator front input = .error error) :
    Stops finish .expression before (readFurther finish least operator front) input error := by
  have hleast : operator.priority + 1 ≤ Expression.negativePriority :=
    Nat.succ_le_succ operator.priority_le_maxPriority
  unfold readFurther at hread
  cases hright : outcome (readBinary finish (operator.priority + 1) input) with
  | error fault =>
    rw [hright] at hread
    obtain rfl := Except.error.inj hread
    refine (h _ hlength _ hleast _ hright).as ?_ ?_
    · rintro used ⟨more, hmore⟩
      refine ⟨more, ?_⟩
      rw [List.append_assoc]
      exact hbefore _ hmore
    · intro input' error' _ herror'
      exact ⟨error', by rw [readFurther, herror']; rfl⟩
  | ok found =>
    obtain ⟨right, mid⟩ := found
    rw [hright] at hread
    have hbound : mid.length < input.length := bound_of_outcome hright
    obtain ⟨taken, rfl, htaken, htakes⟩ := exists_takes_readBinary hleast hright
    refine htakes.stops (hbehind _ _ _ hbound (hbefore _ htaken) hread)
      fun rest' error' hright' herror' => ⟨error', ?_⟩
    rw [readFurther, hright']
    exact herror'

/-- **Operators stop** in an operand behind one of them. What comes before them
makes up an expression already. -/
theorem RowsStop.operations (h : RowsStop finish n) {least : Nat} {left : Token}
    {before input : List Lexeme} (hlength : input.length ≤ n)
    (hbefore : Derives .expression (before.map Lexeme.token)) {error : SyntaxError}
    (hread : outcome (readOperations finish least left input) = .error error) :
    StopsPastBlanks finish .expression before
      (fun input => outcome (readOperations finish least left input)) input error := by
  induction hinput : input.length using Nat.strongRecOn generalizing left before input with
  | _ length ih =>
  subst hinput
  obtain ⟨sign, after, operator, hafter, hoperator, hpriority⟩ :=
    exists_operator_of_readOperations hread
  rw [readOperations_operator left hafter hoperator hpriority] at hread
  have hshorter : (afterBlanks after).length < input.length := by
    have hle := length_afterBlanks input
    rw [hafter] at hle
    exact Nat.lt_of_le_of_lt (length_afterBlanks after) hle
  have hjoin : ∀ operand : List Lexeme, Derives .expression (operand.map Lexeme.token) →
      Derives .expression ((before ++ (leading input ++ sign :: leading after)
        ++ operand).map Lexeme.token) := fun operand hoperand => by
    have hjoined := hbefore.join (allBlank_leading input) (isMark_of_operator? hoperator)
      (allBlank_leading after) hoperand
    simpa using hjoined
  have hfurther := h.further (Nat.lt_of_lt_of_le hshorter hlength) hjoin
    (fun _ _ _ hmid htaken hmore => by
      have hmid' := Nat.lt_trans hmid hshorter
      exact ih _ hmid' (Nat.le_trans (Nat.le_of_lt hmid') hlength) htaken hmore rfl) hread
  refine hfurther.behindSign hafter (fun used hused => by simpa using hused) ?_
  intro used rest rest' after' _ _ _ hafter' hblanks hblanks'
  rw [readOperations_operator left hafter' hoperator hpriority, hblanks, hblanks']

/-- **A row of operands stops** in the first of them, or behind it. -/
theorem RowsStop.binary (h : RowsStop finish n) {least : Nat} {input : List Lexeme}
    (hlength : input.length ≤ n) {error : SyntaxError}
    (hread : outcome (readBinary finish least input) = .error error) :
    Stops finish .expression [] (fun input => outcome (readBinary finish least input)) input
      error := by
  rw [outcome_readBinary] at hread
  cases hleft : outcome (readUnary finish input) with
  | error fault =>
    rw [hleft] at hread
    obtain rfl := Except.error.inj hread
    refine (h.unary hlength hleft).as (fun _ => Viable.expression) ?_
    intro input' error' _ herror'
    exact ⟨error', by rw [outcome_readBinary, herror']; rfl⟩
  | ok found =>
    obtain ⟨left, mid⟩ := found
    rw [hleft] at hread
    obtain ⟨taken, rfl, htaken, htakes⟩ := exists_takes_readUnary hleft
    have hshorter : mid.length ≤ n := by
      rw [List.length_append] at hlength
      omega
    refine htakes.stops (h.operations hshorter htaken hread) fun rest' error' hleft' herror' =>
      ⟨error', ?_⟩
    rw [outcome_readBinary, hleft']
    exact herror'

/-- **Every row of operands stops well**, by induction on the number of
lexemes. -/
theorem rowsStop (finish n : Nat) : RowsStop finish n := by
  induction n with
  | zero => exact fun input hlength => absurd hlength (Nat.not_lt_zero _)
  | succ n ih =>
    exact fun input hlength least _ error hread => ih.binary (Nat.le_of_lt_succ hlength) hread

/-! ## Formulas

The reader of formulas adds an equals sign in front and the end behind. The
result is stated of the lexemes alone: where formulas stop is where no formula
goes on. -/

theorem viable_formula : Viable .formula [] := by
  obtain ⟨more, hmore⟩ := viable_expression
  refine ⟨(Mark.operator .equal).lexeme :: more, ?_⟩
  have hformula :=
    Derives.formula (Mark.isMark_lexeme (.operator .equal)) allBlank_nil hmore allBlank_nil
  simpa using hformula

/-- Behind its row of operands a formula is at its end or not. -/
theorem ofLexemes?_of_body {equals : Lexeme} {input mid : List Lexeme} {body : Token}
    (hequals : equals.kind.isMark (.operator .equal) = true)
    (hbody : outcome (readBinary finish 0 (afterBlanks input)) = .ok (body, mid)) :
    ∃ found fault, Token.ofLexemes? finish (equals :: input)
      = if (afterBlanks mid).head?.isNone then .ok found
        else .error (faultAt finish (afterBlanks mid) fault) := by
  rw [ofLexemes?_cons, if_pos hequals, hbody]
  dsimp only [Except.bind]
  split
  · rename_i hafter
    rw [hafter]
    exact ⟨_, .unexpectedEnd, rfl⟩
  · rename_i hafter
    rw [hafter]
    exact ⟨body, _, rfl⟩

/-- **The reader of formulas stops** as its parts do, or where it should be at
the end. -/
theorem stops_ofLexemes? {input : List Lexeme} {error : SyntaxError}
    (hread : Token.ofLexemes? finish input = .error error) :
    Stops finish .formula [] (Token.ofLexemes? finish) input error := by
  cases input with
  | nil => exact stops_nil rfl viable_formula hread
  | cons equals input =>
    by_cases hequals : equals.kind.isMark (.operator .equal) = true
    · have hmark : equals.token.isMark (.operator .equal) = true := hequals
      refine .cons (fun _ => rfl) ?_
      cases hbody : outcome (readBinary finish 0 (afterBlanks input)) with
      | error fault =>
        rw [ofLexemes?_cons, if_pos hequals, hbody] at hread
        obtain rfl := Except.error.inj hread
        have hstops := rowsStop finish _ _ (Nat.lt_succ_self _) 0 (Nat.zero_le _) _ hbody
        refine hstops.behindBlanks ?_ ?_
        · rintro used ⟨more, hmore⟩
          -- whatever completes the body completes the formula
          have hformula := Derives.formula hmark (allBlank_leading input) hmore allBlank_nil
          exact ⟨more, by simpa using hformula⟩
        · intro input' error' _ _ herror'
          exact ⟨error', by rw [ofLexemes?_cons, if_pos hequals, herror']; rfl⟩
      | ok found =>
        obtain ⟨body, mid⟩ := found
        obtain ⟨taken, hinput, htaken, htakes⟩ := exists_takes_behindBlanks (Nat.zero_le _) hbody
        have hformula :=
          Derives.formula hmark (allBlank_leading input) htaken (allBlank_leading mid)
        have hviable : Viable .formula ([equals] ++ (leading input ++ taken ++ leading mid)) :=
          ⟨[], by simpa using hformula⟩
        rw [hinput] at hread ⊢
        exact stops_next htakes Option.isNone hviable
          (fun _ _ hbody' _ => ofLexemes?_of_body hequals hbody') hread
    · rw [ofLexemes?_cons, if_neg hequals] at hread
      refine stops_here ⟨_, (Except.error.inj hread).symm⟩ viable_formula ?_
      rintro _ (_ | _)
      rw [ofLexemes?_cons, if_neg hequals]
      exact ⟨_, rfl⟩

/-- **A lexeme cannot be used** behind others: no formula goes on with it,
whatever comes behind it. A colon is judged together with what is behind it,
which is a cell or none. -/
def Unusable (used : List Lexeme) (next : Lexeme) (more : List Lexeme) : Prop :=
  ∀ more', (next.kind.isMark .between = true → beginsWithCell more' = beginsWithCell more) →
    ¬ Derives .formula ((used ++ next :: more').map Lexeme.token)

/-- **Where lexemes that make up no formula cannot be used any further.** A
formula can begin with those before, and cannot go on with the one there. -/
theorem exists_stop_of_ofLexemes? {input : List Lexeme} {error : SyntaxError}
    (hread : Token.ofLexemes? finish input = .error error) :
    ∃ used rest fault, input = used ++ rest ∧ error = faultAt finish rest fault ∧
      Viable .formula used ∧ ∀ next more, rest = next :: more → Unusable used next more := by
  obtain ⟨used, rest, rfl, ⟨fault, hfault⟩, hviable, hstuck⟩ := stops_ofLexemes? hread
  refine ⟨used, rest, fault, rfl, hfault, hviable, ?_⟩
  rintro next more rfl more' hcolon hderives
  obtain ⟨error', herror'⟩ := hstuck (next :: more') (.cons next fun h => (hcolon h).symm)
  obtain ⟨tree, hshaped, hbinds, hleaves⟩ := hderives.hasTree
  rw [hshaped.ofLexemes?_eq hbinds hleaves.symm finish] at herror'
  cases herror'

end Worksheet.Formula
