import Worksheet.Proofs.Formula.Climbing

/-!
# Whatever is read is a shaped tree that binds

The other direction of climbing. Whenever a reader comes to a tree, the lexemes
it took are the leaves of that tree, and the tree is shaped and binds
(`ReadOff`). For a row of operands there is one thing more to say, without which
the order of the operators could not be kept: it only ends where no operator of
the asked priority comes next (`WeakerNext`), so an operand never stops short of
an operator that the node around it would then take too tightly.

The readers call each other on fewer and fewer lexemes. So the rows of operands
on fewer lexemes are taken to be read well (`ReadsRows`), each reader is looked
at by itself, and the circle is closed by induction on the number of lexemes.

Together with climbing this says which tree is read, without any reading: the
one that is shaped, binds and has the lexemes as its leaves
(`ofLexemes?_eq_ok_iff`).
-/

namespace Worksheet.Formula

open Token

/-! ## What is read

`ReadOff` says what was taken and that the tree of it is shaped and binds.
`WeakerNext` is the second half of the invariant: behind a row no operator is
left that the row should have taken. -/

/-- **A tree is read off the front of some lexemes**, and binds at least so
tightly. -/
structure ReadOff (least : Nat) (input : List Lexeme) (found : Token × List Lexeme) :
    Prop where
  /-- The lexemes that are taken are its leaves. -/
  leaves : input.map Lexeme.token = found.1.leaves ++ found.2.map Lexeme.token
  /-- It is a tree the grammar allows for. -/
  shaped : Shaped found.1
  /-- Its operators are in order. -/
  binds : found.1.Binds
  /-- It holds together as tightly as is asked. -/
  priority : least ≤ found.1.priority

theorem ReadOff.mono {least least' : Nat} {input : List Lexeme} {found : Token × List Lexeme}
    (h : ReadOff least input found) (hle : least' ≤ least) : ReadOff least' input found :=
  { h with priority := Nat.le_trans hle h.priority }

/-- **No operator of a priority comes next**, blanks left aside. It says where a
row of operands is allowed to end. -/
def WeakerNext (least : Nat) (rest : List Lexeme) : Prop :=
  ∀ lexeme ∈ (afterBlanks rest).head?, ∀ operator ∈ lexeme.kind.operator?,
    operator.priority < least

/-- No operator binds as tightly as a minus sign, so nothing is asked of what
follows one. -/
theorem weakerNext_of_lt {least : Nat} (h : Operator.maxPriority < least) (rest : List Lexeme) :
    WeakerNext least rest :=
  fun _ _ operator _ => Nat.lt_of_le_of_lt operator.priority_le_maxPriority h

theorem weakerNext_of_cons {least : Nat} {lexeme : Lexeme} {input rest : List Lexeme}
    (hafter : afterBlanks input = lexeme :: rest)
    (h : ∀ operator ∈ lexeme.kind.operator?, operator.priority < least) :
    WeakerNext least input := by
  intro other hother
  rw [hafter] at hother
  exact Option.some.inj hother ▸ h

theorem weakerNext_of_nil {least : Nat} {input : List Lexeme} (hafter : afterBlanks input = []) :
    WeakerNext least input := by
  intro lexeme hlexeme
  rw [hafter] at hlexeme
  cases hlexeme

theorem isMark_of_operator? {lexeme : Lexeme} {operator : Operator}
    (h : lexeme.kind.operator? = some operator) :
    lexeme.token.isMark (.operator operator) = true := by
  show lexeme.kind.isMark _ = true
  cases hkind : lexeme.kind with
  | mark mark =>
    cases mark with
    | operator found =>
      rw [hkind] at h
      rw [Option.some.inj h]
      exact beq_self_eq_true _
    | _ => rw [hkind] at h; cases h
  | _ => rw [hkind] at h; cases h

theorem allBlank_blanks (input : List Lexeme) : AllBlank (blanks input) := by
  intro token htoken
  obtain ⟨lexeme, hlexeme, rfl⟩ := List.mem_map.1 htoken
  exact List.all_eq_true.1 List.all_takeWhile lexeme hlexeme

/-- **Nothing is lost when blanks are passed over.** -/
theorem map_token_eq (input : List Lexeme) :
    input.map Lexeme.token = blanks input ++ (afterBlanks input).map Lexeme.token := by
  rw [blanks, afterBlanks, ← List.map_append, List.takeWhile_append_dropWhile]

variable {finish n : Nat}

/-- Rows of operands are read well from fewer lexemes than a number: the tree is
read off, and the row only ends where it has to. It is the hypothesis under
which each reader is looked at by itself. -/
def ReadsRows (finish n : Nat) : Prop :=
  ∀ input : List Lexeme, input.length < n → ∀ least ≤ Expression.negativePriority, ∀ found,
    outcome (readBinary finish least input) = .ok found →
      ReadOff least input found ∧ WeakerNext least found.2

theorem ReadsRows.behindBlanks (h : ReadsRows finish n) {input : List Lexeme}
    (hlength : input.length < n) {least : Nat} (hleast : least ≤ Expression.negativePriority)
    {found : Token × List Lexeme}
    (hread : outcome (readBinary finish least (afterBlanks input)) = .ok found) :
    ReadOff least (afterBlanks input) found ∧ WeakerNext least found.2 :=
  h _ (Nat.lt_of_le_of_lt (length_afterBlanks input) hlength) least hleast found hread

/-! ## Groups and calls

Parentheses shield what is between them, so nothing is asked of the priorities
there. Each of the readers is treated under the hypothesis that shorter rows
are read well (`ReadsRows`). -/

/-- **A group** is read off with its parentheses. Its row of operands has fewer
lexemes, and whatever binds in it is shielded. -/
theorem ReadsRows.group (h : ReadsRows finish n) {opener : Lexeme} {input : List Lexeme}
    (hopener : opener.token.isMark .parenthesisOpen = true) (hlength : input.length < n)
    {found : Token × List Lexeme} (hread : outcome (readGroup finish opener input) = .ok found) :
    ReadOff Expression.percentagePriority (opener :: input) found := by
  rw [outcome_readGroup] at hread
  obtain ⟨⟨body, rest⟩, hbody, hread⟩ := exists_of_bind_eq_ok hread
  obtain ⟨hbody, -⟩ := h.behindBlanks hlength (Nat.zero_le _) hbody
  dsimp only at hread
  split at hread
  · rename_i closer after hafter
    split at hread
    · rename_i hcloser
      replace hcloser : closer.token.isMark .parenthesisClose = true := hcloser
      obtain rfl := Except.ok.inj hread
      have hfront := allBlank_blanks input
      have hback := allBlank_blanks rest
      refine ⟨?_, .group hopener hfront hbody.shaped hback hcloser,
        (binds_group hopener hfront hbody.shaped.isNoise hback hcloser).2 hbody.binds,
        Nat.le_succ _⟩
      have hbefore := map_token_eq input
      have hbehind := map_token_eq rest
      rw [hbody.leaves, hbehind, hafter] at hbefore
      rw [leaves_group hopener hfront hback hcloser, List.map_cons, hbefore]
      simp
    · cases hread
  · cases hread

/-- **Arguments** are read off up to the parenthesis that closes the call, by
induction on the lexemes that are left. Those read before are in `front`, of
which nothing is said. -/
theorem ReadsRows.arguments (h : ReadsRows finish n) {front : List Token}
    {input : List Lexeme} (hlength : input.length < n) {found : Token × List Lexeme}
    (hread : outcome (readArguments finish front input) = .ok found) :
    ∃ arguments tokens closer, Separated arguments tokens ∧
      (∀ argument ∈ arguments, Shaped argument ∧ argument.Binds) ∧
      closer.isMark .parenthesisClose = true ∧
      found.1 = .join .call (front ++ tokens ++ [closer]) ∧
      input.map Lexeme.token
        = tokens.flatMap leaves ++ closer :: found.2.map Lexeme.token := by
  induction hinput : input.length using Nat.strongRecOn generalizing front input with
  | _ length ih =>
  subst hinput
  rw [outcome_readArguments] at hread
  obtain ⟨⟨argument, rest⟩, hargument, hread⟩ := exists_of_bind_eq_ok hread
  have hrest : rest.length < input.length := bound_of_outcome hargument
  obtain ⟨hargument, -⟩ := h input hlength 0 (Nat.zero_le _) _ hargument
  have hleaves := hargument.leaves
  have hback := allBlank_blanks rest
  rw [map_token_eq rest] at hleaves
  dsimp only at hread hleaves
  split at hread
  · cases hread
  · rename_i lexeme after hafter
    rw [hafter, List.map_cons] at hleaves
    split at hread
    -- a comma: the other arguments are read off what comes after it
    · rename_i hcomma
      replace hcomma : lexeme.token.isMark .separator = true := hcomma
      have hshorter : (afterBlanks after).length < input.length := by
        have hle := length_afterBlanks rest
        have hle' := length_afterBlanks after
        rw [hafter, List.length_cons] at hle
        omega
      obtain ⟨arguments, tokens, closer, hseparated, harguments, hcloser, hfound, hmore⟩ :=
        ih _ hshorter (Nat.lt_trans hshorter hlength) hread rfl
      have hfront := allBlank_blanks after
      refine ⟨argument :: arguments, _, closer, .more argument hback hcomma hfront hseparated,
        List.forall_mem_cons.2 ⟨⟨hargument.shaped, hargument.binds⟩, harguments⟩, hcloser, ?_, ?_⟩
      · rw [hfound]
        simp
      · rw [hleaves, map_token_eq after, hmore]
        simp [List.flatMap_append, hback.flatMap_leaves, hfront.flatMap_leaves,
          leaves_of_isNoise (isNoise_of_isMark hcomma)]
    · split at hread
      · rename_i hcloser
        obtain rfl := Except.ok.inj hread
        refine ⟨[argument], _, lexeme.token, .last argument hback,
          List.forall_mem_singleton.2 ⟨hargument.shaped, hargument.binds⟩, hcloser, ?_, ?_⟩
        · simp
        · rw [hleaves, List.flatMap_cons, hback.flatMap_leaves, List.append_assoc]
      · cases hread

/-- **A call with arguments** is read off up to the parenthesis that closes it. -/
theorem ReadsRows.callWith (h : ReadsRows finish n) {name opener : Lexeme} {rest : List Lexeme}
    (hname : name.token.isFunctionName = true)
    (hopener : opener.token.isMark .parenthesisOpen = true) (hlength : rest.length < n)
    {found : Token × List Lexeme}
    (hread : outcome (readArguments finish (name.token :: opener.token :: blanks rest)
      (afterBlanks rest)) = .ok found) :
    ReadOff Expression.percentagePriority (name :: opener :: rest) found := by
  have hfront := allBlank_blanks rest
  obtain ⟨arguments, tokens, closer, hseparated, harguments, hcloser, hfound, hmore⟩ :=
    h.arguments (Nat.lt_of_le_of_lt (length_afterBlanks rest) hlength) hread
  have hsignificant := hseparated.significant_eq fun argument hargument =>
    (harguments argument hargument).1.isNoise
  have hbinds := (binds_call hname hopener hfront hsignificant hcloser).2
    fun argument hargument => (harguments argument hargument).2
  have hshaped := Shaped.call hname hopener hfront hseparated
    (fun argument hargument => (harguments argument hargument).1) hcloser
  obtain ⟨tree, left⟩ := found
  obtain rfl : tree = _ := hfound
  refine ⟨?_, hshaped, hbinds, Nat.le_succ _⟩
  refine Eq.trans ?_ (congrArg (· ++ _) (leaves_call hname hopener hfront hcloser).symm)
  rw [List.map_cons, List.map_cons, map_token_eq rest, hmore]
  simp

/-- **A call** is read off with its name and its parentheses. -/
theorem ReadsRows.call (h : ReadsRows finish n) {name : Lexeme} {input : List Lexeme}
    (hname : name.token.isFunctionName = true) (hlength : input.length ≤ n)
    {found : Token × List Lexeme} (hread : outcome (readCall finish name input) = .ok found) :
    ReadOff Expression.percentagePriority (name :: input) found := by
  cases input with
  | nil =>
    rw [outcome_readCall_nil] at hread
    cases hread
  | cons opener rest =>
    rw [outcome_readCall] at hread
    split at hread
    · rename_i hopener
      replace hopener : opener.token.isMark .parenthesisOpen = true := hopener
      split at hread
      · rename_i hafter
        -- nothing closes the call at once, so arguments are read
        rw [← hafter] at hread
        exact h.callWith hname hopener hlength hread
      · rename_i lexeme after hafter
        split at hread
        · rename_i hcloser
          replace hcloser : lexeme.token.isMark .parenthesisClose = true := hcloser
          obtain rfl := Except.ok.inj hread
          have hfront := allBlank_blanks rest
          refine ⟨?_, .emptyCall hname hopener hfront hcloser,
            binds_emptyCall hname hopener hfront hcloser, Nat.le_succ _⟩
          refine Eq.trans ?_
            (congrArg (· ++ _) (leaves_emptyCall hname hopener hfront hcloser).symm)
          rw [List.map_cons, List.map_cons, map_token_eq rest, hafter]
          simp
        · rw [← hafter] at hread
          exact h.callWith hname hopener hlength hread
    · cases hread

/-! ## Operands

An operand by itself, with percent signs behind it, with minus signs before it:
each of these binds as tightly as the next one asks. -/

theorem readOff_operand {lexeme : Lexeme} (h : lexeme.token.isOperand = true)
    (rest : List Lexeme) :
    ReadOff Expression.percentagePriority (lexeme :: rest) (lexeme.token, rest) :=
  ⟨rfl, .operand h, binds_leaf _ _, Nat.le_succ _⟩

/-- **A cell** is read off, or a range with the cell behind a colon. There are
no blanks around the colon. -/
theorem readOff_reference {first : Lexeme} (hfirst : first.token.isCell = true)
    (input : List Lexeme) :
    ReadOff Expression.percentagePriority (first :: input) (readReference first input) := by
  have hoperand : first.token.isOperand = true := by
    obtain ⟨target, text, hleaf⟩ := exists_of_isCell hfirst
    rw [hleaf]
    rfl
  unfold readReference
  split
  · rename_i between last rest
    split
    · rename_i target hkind
      have hlast : last.token.isCell = true := by
        show Token.isCell (.leaf last.kind last.text) = true
        rw [hkind]
        rfl
      split
      · rename_i hbetween
        replace hbetween : between.token.isMark .between = true := hbetween
        refine ⟨?_, .range hfirst hbetween hlast, binds_range hfirst hbetween hlast,
          Nat.le_succ _⟩
        rw [leaves_range hfirst hbetween hlast]
        rfl
      · exact readOff_operand hoperand _
    · exact readOff_operand hoperand _
  · exact readOff_operand hoperand _

/-- **Percent signs** leave an operand what it is, by induction on how many
there are. -/
theorem ReadOff.readPercents {input rest : List Lexeme} {operand : Token}
    (h : ReadOff Expression.percentagePriority input (operand, rest)) :
    ReadOff Expression.percentagePriority input (readPercents operand rest) := by
  induction rest generalizing operand with
  | nil => exact h
  | cons lexeme rest ih =>
    rw [Formula.readPercents]
    split
    · rename_i hpercent
      replace hpercent : lexeme.token.isMark .percent = true := hpercent
      refine ih ⟨?_, .percentage h.shaped hpercent,
        (binds_percentage h.shaped.isNoise hpercent).2 ⟨h.binds, h.priority⟩, Nat.le_refl _⟩
      rw [h.leaves, leaves_percentage hpercent, List.append_assoc]
      rfl
    · exact h

/-- **An operand** is read off, whatever it is. One case for each kind of first
lexeme. -/
theorem ReadsRows.primary (h : ReadsRows finish n) {input : List Lexeme}
    (hlength : input.length ≤ n) {found : Token × List Lexeme}
    (hread : outcome (readPrimary finish input) = .ok found) :
    ReadOff Expression.percentagePriority input found := by
  cases input with
  | nil =>
    rw [outcome_readPrimary_nil] at hread
    cases hread
  | cons lexeme rest =>
    rw [outcome_readPrimary] at hread
    obtain ⟨kind, text, start⟩ := lexeme
    cases kind with
    | number | text | boolean | error | label =>
      obtain rfl := Except.ok.inj hread
      exact readOff_operand rfl rest
    | cell =>
      obtain rfl := Except.ok.inj hread
      exact readOff_reference rfl rest
    | functionName => exact h.call rfl (Nat.le_of_succ_le hlength) hread
    | mark mark =>
      cases mark with
      | parenthesisOpen => exact h.group rfl hlength hread
      | _ => cases hread
    | _ => cases hread

/-- **Minus signs** are read off with the operand behind them, by induction on
the lexemes. -/
theorem ReadsRows.unary (h : ReadsRows finish n) {input : List Lexeme}
    (hlength : input.length ≤ n) {found : Token × List Lexeme}
    (hread : outcome (readUnary finish input) = .ok found) :
    ReadOff Expression.negativePriority input found := by
  induction hinput : input.length using Nat.strongRecOn generalizing input found with
  | _ length ih =>
  subst hinput
  cases input with
  | nil =>
    rw [outcome_readUnary_nil] at hread
    cases hread
  | cons lexeme rest =>
    rw [outcome_readUnary] at hread
    split at hread
    · rename_i hminus
      replace hminus : lexeme.token.isMark (.operator .subtraction) = true := hminus
      obtain ⟨⟨operand, after⟩, hoperand, hread⟩ := exists_of_map_eq_ok hread
      -- one sign fewer for the induction, on the number of lexemes
      have hshorter : (afterBlanks rest).length < (lexeme :: rest).length :=
        Nat.lt_succ_of_le (length_afterBlanks rest)
      have hfront := allBlank_blanks rest
      have hoperand := ih _ hshorter (Nat.le_trans (Nat.le_of_lt hshorter) hlength) hoperand rfl
      subst hread
      refine ⟨?_, .negative hminus hfront hoperand.shaped,
        (binds_negative hminus hfront hoperand.shaped.isNoise).2
          ⟨hoperand.binds, hoperand.priority⟩, Nat.le_refl _⟩
      rw [List.map_cons, map_token_eq rest, hoperand.leaves, leaves_negative hminus hfront]
      simp
    · obtain ⟨⟨operand, after⟩, hoperand, hread⟩ := exists_of_map_eq_ok hread
      subst hread
      exact (h.primary hlength hoperand).readPercents.mono (Nat.le_succ _)

/-! ## Rows of operands

Operators are read from left to right, each with a right operand of a higher
priority. The row that was read before is the left operand of the next one. -/

/-- **An operator** is read off with the operands on both sides of it. The right
one is asked to bind more tightly, the left one as tightly, which makes the node
an ordered one (`Token.Ordered`). -/
theorem ReadOff.binary {least : Nat} {whole input rest after : List Lexeme} {left right : Token}
    {lexeme : Lexeme} {operator : Operator} (hleft : ReadOff least whole (left, input))
    (hafter : afterBlanks input = lexeme :: rest)
    (hoperator : lexeme.kind.operator? = some operator)
    (hright : ReadOff (operator.priority + 1) (afterBlanks rest) (right, after))
    (hpriority : operator.priority ≤ left.priority) (hleast : least ≤ operator.priority) :
    ReadOff least whole (.join (.binary operator)
      (left :: blanks input ++ lexeme.token :: blanks rest ++ [right]), after) := by
  have hmark := isMark_of_operator? hoperator
  have hfront := allBlank_blanks input
  have hback := allBlank_blanks rest
  refine ⟨?_, .binary hleft.shaped hfront hmark hback hright.shaped,
    (binds_binary hleft.shaped.isNoise hfront hmark hback hright.shaped.isNoise).2
      ⟨⟨hleft.binds, hright.binds⟩, hpriority, hright.priority⟩, hleast⟩
  have hinput := map_token_eq input
  rw [hafter, List.map_cons, map_token_eq rest, hright.leaves] at hinput
  refine Eq.trans ?_ (congrArg (· ++ _) (leaves_binary hfront hmark hback).symm)
  rw [hleft.leaves]
  dsimp only
  rw [hinput]
  simp

/-- **Operators** are read off with a left operand that binds as tightly as the
next of them, one after the other. Each makes a left operand that binds as
tightly as the one after it, since its right operand ended there. -/
theorem ReadsRows.operations (h : ReadsRows finish n) {least : Nat}
    {whole input : List Lexeme} {left : Token} (hlength : input.length ≤ n)
    (hleft : ReadOff least whole (left, input)) (hnext : WeakerNext (left.priority + 1) input)
    {found : Token × List Lexeme}
    (hread : outcome (readOperations finish least left input) = .ok found) :
    ReadOff least whole found ∧ WeakerNext least found.2 := by
  induction hinput : input.length using Nat.strongRecOn generalizing left input with
  | _ length ih =>
  subst hinput
  rw [outcome_readOperations] at hread
  split at hread
  · rename_i hafter
    obtain rfl := Except.ok.inj hread
    exact ⟨hleft, weakerNext_of_nil hafter⟩
  · rename_i lexeme rest hafter
    split at hread
    · rename_i hoperator
      obtain rfl := Except.ok.inj hread
      refine ⟨hleft, weakerNext_of_cons hafter fun operator hsome => ?_⟩
      rw [hoperator] at hsome
      cases hsome
    · rename_i operator hoperator
      split at hread
      · rename_i hlow
        obtain rfl := Except.ok.inj hread
        refine ⟨hleft, weakerNext_of_cons hafter fun found hsome => ?_⟩
        rw [hoperator] at hsome
        exact Option.some.inj hsome ▸ hlow
      · rename_i hleast
        obtain ⟨⟨right, after⟩, hright, hread⟩ := exists_of_bind_eq_ok hread
        have hle := length_afterBlanks input
        rw [hafter, List.length_cons] at hle
        have hshorter : after.length < input.length := by
          have hlt : after.length < (afterBlanks rest).length := bound_of_outcome hright
          have hle' := length_afterBlanks rest
          omega
        -- the operator is no stronger than the tree on the left, or that tree
        -- would have taken it
        have hpriority : operator.priority ≤ left.priority := by
          refine Nat.lt_succ_iff.1 (hnext lexeme ?_ operator hoperator)
          rw [hafter]
          rfl
        obtain ⟨hright, hbehind⟩ := h.behindBlanks (Nat.lt_of_lt_of_le hle hlength)
          (Nat.succ_le_succ operator.priority_le_maxPriority) hright
        have hjoined := hleft.binary hafter hoperator hright hpriority (Nat.not_lt.1 hleast)
        exact ih _ hshorter (Nat.le_of_lt (Nat.lt_of_lt_of_le hshorter hlength)) hjoined hbehind
          hread rfl

/-- **A row of operands** is read off up to an operator that binds less
tightly. -/
theorem ReadsRows.binary (h : ReadsRows finish n) {least : Nat}
    (hleast : least ≤ Expression.negativePriority) {input : List Lexeme}
    (hlength : input.length ≤ n) {found : Token × List Lexeme}
    (hread : outcome (readBinary finish least input) = .ok found) :
    ReadOff least input found ∧ WeakerNext least found.2 := by
  rw [outcome_readBinary] at hread
  obtain ⟨⟨left, rest⟩, hleft, hread⟩ := exists_of_bind_eq_ok hread
  have hrest : rest.length < input.length := bound_of_outcome hleft
  have hleft := h.unary hlength hleft
  refine h.operations (Nat.le_trans (Nat.le_of_lt hrest) hlength) (hleft.mono hleast)
    (weakerNext_of_lt ?_ rest) hread
  exact Nat.lt_succ_of_le (Nat.le_trans (Nat.le_succ _) hleft.priority)

/-- **Every row of operands is read well.** This closes the circle of the
readers: `ReadsRows.binary` asks for shorter rows only. -/
theorem readsRows (finish n : Nat) : ReadsRows finish n := by
  induction n with
  | zero => exact fun input hlength => absurd hlength (Nat.not_lt_zero _)
  | succ n ih =>
    exact fun input hlength least hleast found hread =>
      ih.binary hleast (Nat.le_of_lt_succ hlength) hread

/-! ## Formulas

With the converse of the module on climbing, reading is characterised by the
tree: the one that is shaped, binds, and has the lexemes as its leaves. -/

/-- **Lexemes that are read are the leaves of the tree of a formula, and it
binds.** -/
theorem shapedFormula_of_ofLexemes? {input : List Lexeme} {tree : Token}
    (h : Token.ofLexemes? finish input = .ok tree) :
    ShapedFormula tree ∧ tree.Binds ∧ LeavesOf tree input := by
  cases input with
  | nil => cases h
  | cons equals rest =>
    rw [ofLexemes?_cons] at h
    split at h
    · rename_i hequals
      replace hequals : equals.token.isMark (.operator .equal) = true := hequals
      obtain ⟨⟨body, after⟩, hbody, h⟩ := exists_of_bind_eq_ok h
      obtain ⟨hbody, -⟩ := (readsRows finish _).behindBlanks (Nat.lt_succ_self _)
        (Nat.zero_le _) hbody
      dsimp only at h
      split at h
      · rename_i hafter
        obtain rfl := Except.ok.inj h
        have hfront := allBlank_blanks rest
        have hback := allBlank_blanks after
        refine ⟨.intro hequals hfront hbody.shaped hback,
          (binds_formula hequals hfront hbody.shaped.isNoise hback).2 hbody.binds, ?_⟩
        rw [LeavesOf, leaves_formula hequals hfront hback, List.map_cons, map_token_eq rest,
          hbody.leaves, map_token_eq after, hafter]
        simp
      · cases h
    · cases h

/-- **Which tree is read**: the one that is shaped, binds, and has the lexemes
as its leaves. Nothing of the readers is left in this. -/
theorem ofLexemes?_eq_ok_iff {input : List Lexeme} {tree : Token} :
    Token.ofLexemes? finish input = .ok tree
      ↔ ShapedFormula tree ∧ tree.Binds ∧ LeavesOf tree input :=
  ⟨shapedFormula_of_ofLexemes?, fun ⟨hshaped, hbinds, hleaves⟩ =>
    hshaped.ofLexemes?_eq hbinds hleaves finish⟩

theorem ofFormula?_eq_ok_iff {reader : Reader} {text : List Char} {token : Token} :
    Token.ofFormula? reader text = .ok token
      ↔ ∃ input, lexemes reader text = .ok input ∧
        ShapedFormula token ∧ token.Binds ∧ LeavesOf token input := by
  unfold Token.ofFormula?
  cases lexemes reader text with
  | error e => exact iff_of_false (fun h => nomatch h) fun ⟨_, h, _⟩ => nomatch h
  | ok input =>
    constructor
    · exact fun h => ⟨input, rfl, ofLexemes?_eq_ok_iff.1 h⟩
    · rintro ⟨_, hinput, h⟩
      exact ofLexemes?_eq_ok_iff.2 (Except.ok.inj hinput ▸ h)

end Worksheet.Formula
