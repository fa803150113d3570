import Worksheet.Proofs.Formula.Reading

/-!
# The grammar of formulas

Which lexemes make up a formula can be said without trees and without
priorities: an expression is a row of operands with operators between them, and
any operators will do. That is the grammar `Derives`, one rule for each way a
part can be written, with blanks exactly where its rules have them.

The reader accepts what the grammar derives and nothing else
(`exists_ofLexemes?_iff`). That it accepts no more is read off the tree it comes
to, whose leaves are derived level by level (`Shaped.derives`). That it accepts
no less takes a tree for every derivation. Operands are no trouble; an operator
behind a row of operands goes where the priorities have it, down the right side
of the tree that the row already has (`Shaped.exists_insert`).
-/

namespace Worksheet.Formula

open Token

/-- The parts of a formula: the left-hand sides of the grammar. -/
inductive Part
  /-- An equals sign and an expression. -/
  | formula
  /-- Operands with operators between them. -/
  | expression
  /-- The operators of an expression, each with the operand behind it. -/
  | operations
  /-- An operand that minus signs may stand before. -/
  | unary
  /-- An operand that percent signs may stand behind. -/
  | scaled
  /-- A literal, a reference, a call or a group. -/
  | primary
  /-- The arguments of a call. -/
  | arguments

/-- **The grammar of formulas**: which lexemes are which part. Nothing is said
of priorities, so an expression with several operators is derived in one way
only, as a row of operands. -/
inductive Derives : Part → List Token → Prop
  | formula {equals : Token} {front body back : List Token}
      (hequals : equals.isMark (.operator .equal) = true) (hfront : AllBlank front)
      (hbody : Derives .expression body) (hback : AllBlank back) :
      Derives .formula (equals :: front ++ body ++ back)
  | expression {first rest : List Token} (hfirst : Derives .unary first)
      (hrest : Derives .operations rest) : Derives .expression (first ++ rest)
  | noOperation : Derives .operations []
  | operation {operator : Operator} {sign : Token} {front back operand rest : List Token}
      (hfront : AllBlank front) (hsign : sign.isMark (.operator operator) = true)
      (hback : AllBlank back) (hoperand : Derives .unary operand)
      (hrest : Derives .operations rest) :
      Derives .operations (front ++ sign :: back ++ operand ++ rest)
  | negative {minus : Token} {front operand : List Token}
      (hminus : minus.isMark (.operator .subtraction) = true) (hfront : AllBlank front)
      (hoperand : Derives .unary operand) : Derives .unary (minus :: front ++ operand)
  | scaled {operand : List Token} (h : Derives .scaled operand) : Derives .unary operand
  | primary {operand : List Token} (h : Derives .primary operand) : Derives .scaled operand
  | percentage {operand : List Token} {percent : Token} (hoperand : Derives .scaled operand)
      (hpercent : percent.isMark .percent = true) : Derives .scaled (operand ++ [percent])
  | operand {token : Token} (h : token.isOperand = true) : Derives .primary [token]
  | range {first colon last : Token} (hfirst : first.isCell = true)
      (hcolon : colon.isMark .between = true) (hlast : last.isCell = true) :
      Derives .primary [first, colon, last]
  | emptyCall {name opener closer : Token} {front : List Token}
      (hname : name.isFunctionName = true) (hopener : opener.isMark .parenthesisOpen = true)
      (hfront : AllBlank front) (hcloser : closer.isMark .parenthesisClose = true) :
      Derives .primary (name :: opener :: front ++ [closer])
  | call {name opener closer : Token} {front arguments : List Token}
      (hname : name.isFunctionName = true) (hopener : opener.isMark .parenthesisOpen = true)
      (hfront : AllBlank front) (harguments : Derives .arguments arguments)
      (hcloser : closer.isMark .parenthesisClose = true) :
      Derives .primary (name :: opener :: front ++ arguments ++ [closer])
  | group {opener closer : Token} {front body back : List Token}
      (hopener : opener.isMark .parenthesisOpen = true) (hfront : AllBlank front)
      (hbody : Derives .expression body) (hback : AllBlank back)
      (hcloser : closer.isMark .parenthesisClose = true) :
      Derives .primary (opener :: front ++ body ++ back ++ [closer])
  | lastArgument {argument back : List Token} (hargument : Derives .expression argument)
      (hback : AllBlank back) : Derives .arguments (argument ++ back)
  | argument {argument back front rest : List Token} {comma : Token}
      (hargument : Derives .expression argument) (hback : AllBlank back)
      (hcomma : comma.isMark .separator = true) (hfront : AllBlank front)
      (hrest : Derives .arguments rest) :
      Derives .arguments (argument ++ back ++ comma :: front ++ rest)

/-! ## From trees to derivations

A tree is a row of operands with its operators between them, read from left to
right, whatever its priorities are. So its leaves are derived, by induction on
the tree. -/

theorem Derives.operations_append {front back : List Token} (hfront : Derives .operations front)
    (hback : Derives .operations back) : Derives .operations (front ++ back) := by
  generalize hpart : Part.operations = part at hfront
  induction hfront with
  | noOperation => exact hback
  | @operation operator sign before between operand rest hbefore hsign hbetween hoperand hrest _
      ih =>
    rw [List.append_assoc]
    exact .operation hbefore hsign hbetween hoperand (ih rfl)
  | _ => cases hpart

/-- **Two expressions with an operator between them are one**: the row of the
first, the operator, and the row of the second. -/
theorem Derives.join {operator : Operator} {sign : Token} {left front back right : List Token}
    (hleft : Derives .expression left) (hfront : AllBlank front)
    (hsign : sign.isMark (.operator operator) = true) (hback : AllBlank back)
    (hright : Derives .expression right) :
    Derives .expression (left ++ (front ++ sign :: (back ++ right))) := by
  cases hleft with
  | @expression first rest hfirst hrest =>
    cases hright with
    | @expression first' rest' hfirst' hrest' =>
      have hoperations := hrest.operations_append
        (.operation hfront hsign hback hfirst' hrest')
      have hjoined := Derives.expression hfirst hoperations
      simpa using hjoined

theorem Derives.expression_of_unary {operand : List Token} (h : Derives .unary operand) :
    Derives .expression operand := by
  have hexpression := Derives.expression h .noOperation
  rwa [List.append_nil] at hexpression

/-- What is written for arguments is derived as such. -/
theorem Separated.derives {arguments tokens : List Token} (h : Separated arguments tokens)
    (harguments : ∀ argument ∈ arguments, Derives .expression argument.leaves) :
    Derives .arguments (tokens.flatMap leaves) := by
  induction h with
  | last argument hback =>
    rw [List.flatMap_cons, hback.flatMap_leaves]
    exact .lastArgument (harguments argument List.mem_cons_self) hback
  | more argument hback hcomma hfront h ih =>
    have hargument := harguments argument List.mem_cons_self
    have hrest := ih fun other hother => harguments other (List.mem_cons_of_mem _ hother)
    have hall := Derives.argument hargument hback hcomma hfront hrest
    rw [List.flatMap_append, List.cons_append, List.flatMap_cons, List.flatMap_append,
      List.flatMap_cons, hback.flatMap_leaves, hfront.flatMap_leaves,
      leaves_of_isNoise (isNoise_of_isMark hcomma)]
    simpa using hall

/-- **The leaves of a tree are derived** at the level of its priority, and as an
expression in any case. -/
structure DerivesLeaves (tree : Token) : Prop where
  scaled : Expression.percentagePriority ≤ tree.priority → Derives .scaled tree.leaves
  unary : Expression.negativePriority ≤ tree.priority → Derives .unary tree.leaves
  expression : Derives .expression tree.leaves

theorem DerivesLeaves.of_scaled {tree : Token} (h : Derives .scaled tree.leaves) :
    DerivesLeaves tree :=
  ⟨fun _ => h, fun _ => .scaled h, Derives.expression_of_unary (.scaled h)⟩

/-- **The leaves of a shaped tree that binds are derived**, by induction on the
tree. That it binds is needed where an operand of a sign must not be an
operation. -/
theorem Shaped.derives {tree : Token} (h : Shaped tree) (hbinds : tree.Binds) :
    DerivesLeaves tree := by
  induction h with
  | operand h =>
    refine .of_scaled (.primary ?_)
    rw [leaves_operand h]
    exact .operand h
  | range hfirst hcolon hlast =>
    refine .of_scaled (.primary ?_)
    rw [leaves_range hfirst hcolon hlast]
    exact .range hfirst hcolon hlast
  | group hopener hfront hbody hback hcloser ih =>
    rw [binds_group hopener hfront hbody.isNoise hback hcloser] at hbinds
    refine .of_scaled (.primary ?_)
    rw [leaves_group hopener hfront hback hcloser]
    have hgroup := Derives.group hopener hfront (ih hbinds).expression hback hcloser
    simpa using hgroup
  | emptyCall hname hopener hfront hcloser =>
    refine .of_scaled (.primary ?_)
    exact leaves_emptyCall hname hopener hfront hcloser ▸ .emptyCall hname hopener hfront hcloser
  | call hname hopener hfront htokens harguments hcloser ih =>
    have hsignificant := htokens.significant_eq fun argument hargument =>
      (harguments argument hargument).isNoise
    rw [binds_call hname hopener hfront hsignificant hcloser] at hbinds
    have hderives := htokens.derives fun argument hargument =>
      (ih argument hargument (hbinds argument hargument)).expression
    have hcall := Derives.call hname hopener hfront hderives hcloser
    refine .of_scaled (.primary ?_)
    rw [leaves_call hname hopener hfront hcloser]
    simpa using hcall
  | percentage hoperand hpercent ih =>
    rw [binds_percentage hoperand.isNoise hpercent] at hbinds
    refine .of_scaled ?_
    rw [leaves_percentage hpercent]
    exact .percentage ((ih hbinds.1).scaled hbinds.2) hpercent
  | @negative minus operand front hminus hfront hoperand ih =>
    rw [binds_negative hminus hfront hoperand.isNoise] at hbinds
    -- a negation is an operand of an operator, but no percent sign can follow
    -- it
    have hunary : Derives .unary (Token.join .negative (minus :: front ++ [operand])).leaves := by
      rw [leaves_negative hminus hfront]
      exact .negative hminus hfront ((ih hbinds.1).unary hbinds.2)
    exact ⟨fun hle => absurd hle (Nat.not_succ_le_self _), fun _ => hunary,
      hunary.expression_of_unary⟩
  | @binary operator left sign right front back hleft hfront hsign hback hright ihleft ihright =>
    rw [binds_binary hleft.isNoise hfront hsign hback hright.isNoise] at hbinds
    obtain ⟨⟨hbinds, hbinds'⟩, -⟩ := hbinds
    -- a binary join is an expression only: its priority is below that of a
    -- negation
    have hlow : operator.priority < Expression.negativePriority :=
      Nat.lt_succ_of_le operator.priority_le_maxPriority
    refine ⟨fun hle => ?_, fun hle => absurd hle (Nat.not_le.2 hlow), ?_⟩
    · exact absurd (Nat.le_of_succ_le hle) (Nat.not_le.2 hlow)
    · rw [leaves_binary hfront hsign hback]
      exact (ihleft hbinds).expression.join hfront hsign hback (ihright hbinds').expression

/-! ## From derivations to trees

A row of operands has no priorities, and a tree has to be found in which the
operators stand where theirs put them. They are inserted from left to right
(`Shaped.exists_insert`), as the reader does it, but without a look at the
reader. -/

/-- **A tree for some lexemes**: it is shaped, binds at least so tightly, and
has them as its leaves. -/
structure TreeOf (least : Nat) (lexemes : List Token) (tree : Token) : Prop where
  shaped : Shaped tree
  binds : tree.Binds
  priority : least ≤ tree.priority
  leaves : tree.leaves = lexemes

section Insert

variable {operator : Operator} {left sign right : Token} {front back : List Token}

/-- An operator goes above the tree before it if that binds as tightly. -/
theorem treeOf_binary (hleft : Shaped left) (hbinds : left.Binds) (hfront : AllBlank front)
    (hsign : sign.isMark (.operator operator) = true) (hback : AllBlank back)
    (hright : Shaped right) (hbinds' : right.Binds) (hle : operator.priority ≤ left.priority)
    (hlt : operator.priority < right.priority) :
    TreeOf operator.priority (left.leaves ++ (front ++ sign :: (back ++ right.leaves)))
      (.join (.binary operator) (left :: front ++ sign :: back ++ [right])) :=
  ⟨.binary hleft hfront hsign hback hright,
    (binds_binary hleft.isNoise hfront hsign hback hright.isNoise).2
      ⟨⟨hbinds, hbinds'⟩, hle, hlt⟩,
    Nat.le_refl _, leaves_binary hfront hsign hback⟩

/-- **An operator goes where the priorities have it**: above the tree before it
if that binds as tightly, and else somewhere down its right side. Either way the
tree that comes of it binds as tightly as the weaker of the two. The induction
goes down the right side of the tree, which is an operation or a sign as long as
it binds less tightly. -/
theorem Shaped.exists_insert (hleft : Shaped left) (hbinds : left.Binds)
    (hfront : AllBlank front) (hsign : sign.isMark (.operator operator) = true)
    (hback : AllBlank back) (hright : Shaped right) (hbinds' : right.Binds)
    (hlt : operator.priority < right.priority) :
    ∃ tree, TreeOf (min left.priority operator.priority)
      (left.leaves ++ (front ++ sign :: (back ++ right.leaves))) tree := by
  have hlow : operator.priority ≤ Expression.negativePriority :=
    Nat.le_succ_of_le operator.priority_le_maxPriority
  have habove {left : Token} (hleft : Shaped left) (hbinds : left.Binds)
      (hle : operator.priority ≤ left.priority) :
      ∃ tree, TreeOf (min left.priority operator.priority)
        (left.leaves ++ (front ++ sign :: (back ++ right.leaves))) tree := by
    have hjoined := treeOf_binary hleft hbinds hfront hsign hback hright hbinds' hle hlt
    exact ⟨_, { hjoined with priority := Nat.min_le_right _ _ }⟩
  have hshaped := hleft
  induction hleft with
  | @binary outer a sign' b front' back' ha hfront' hsign' hback' hb iha ih =>
    by_cases hle : operator.priority ≤ outer.priority
    · exact habove hshaped hbinds hle
    -- it binds more tightly than the operator before it, whose right operand it goes to
    · rw [binds_binary ha.isNoise hfront' hsign' hback' hb.isNoise] at hbinds
      obtain ⟨⟨hbindsa, hbindsb⟩, hlea, hltb⟩ := hbinds
      obtain ⟨tree, htree⟩ := ih hbindsb hb
      have hlower : outer.priority < tree.priority :=
        Nat.lt_of_lt_of_le (Nat.lt_min.2 ⟨hltb, Nat.not_le.1 hle⟩) htree.priority
      have hjoined := treeOf_binary ha hbindsa hfront' hsign' hback' htree.shaped htree.binds
        hlea hlower
      refine ⟨_, { hjoined with priority := Nat.min_le_left _ _, leaves := ?_ }⟩
      rw [hjoined.leaves, htree.leaves, leaves_binary hfront' hsign' hback']
      simp
  | operand h =>
    obtain ⟨kind, text, rfl⟩ := exists_of_isOperand h
    exact habove hshaped hbinds ((le_priority_iff hlow).2 fun _ h => nomatch h)
  | _ => exact habove hshaped hbinds ((le_priority_iff hlow).2 fun _ h => nomatch h)

end Insert

/-- **What a part stands for**: lexemes that are an operand have a tree that
binds as tightly as the operand must; those of operations make a tree with any
tree before them. -/
def HasTree : Part → List Token → Prop
  | .formula, lexemes => ∃ tree, ShapedFormula tree ∧ tree.Binds ∧ tree.leaves = lexemes
  | .expression, lexemes => ∃ tree, TreeOf 0 lexemes tree
  | .operations, lexemes => ∀ left, Shaped left → left.Binds →
      ∃ tree, TreeOf 0 (left.leaves ++ lexemes) tree
  | .unary, lexemes => ∃ tree, TreeOf Expression.negativePriority lexemes tree
  | .scaled, lexemes | .primary, lexemes =>
    ∃ tree, TreeOf Expression.percentagePriority lexemes tree
  | .arguments, lexemes => ∃ arguments tokens, Separated arguments tokens ∧
      (∀ argument ∈ arguments, Shaped argument ∧ argument.Binds) ∧
      tokens.flatMap leaves = lexemes

/-- **Whatever is derived has a tree**, by induction on the derivation. Only
operations need more than putting trees together, and they go through
`Shaped.exists_insert`. -/
theorem Derives.hasTree {part : Part} {lexemes : List Token} (h : Derives part lexemes) :
    HasTree part lexemes := by
  induction h with
  | @formula equals front body back hequals hfront hbody hback ih =>
    obtain ⟨tree, htree⟩ := ih
    refine ⟨_, .intro hequals hfront htree.shaped hback,
      (binds_formula hequals hfront htree.shaped.isNoise hback).2 htree.binds, ?_⟩
    rw [leaves_formula hequals hfront hback, htree.leaves]
    simp
  | expression hfirst hrest ihfirst ihrest =>
    obtain ⟨first, hfirst⟩ := ihfirst
    obtain ⟨tree, htree⟩ := ihrest first hfirst.shaped hfirst.binds
    exact ⟨tree, hfirst.leaves ▸ htree⟩
  | noOperation =>
    intro left hleft hbinds
    exact ⟨left, hleft, hbinds, Nat.zero_le _, (List.append_nil _).symm⟩
  | @operation operator sign front back operand rest hfront hsign hback hoperand hrest
      ihoperand ihrest =>
    intro left hleft hbinds
    obtain ⟨right, hright⟩ := ihoperand
    -- the right operand binds tighter than any operator, so the operation can
    -- be inserted into the tree on the left
    have hlt : operator.priority < right.priority :=
      Nat.lt_of_lt_of_le (Nat.lt_succ_of_le operator.priority_le_maxPriority) hright.priority
    obtain ⟨inner, hinner⟩ :=
      hleft.exists_insert hbinds hfront hsign hback hright.shaped hright.binds hlt
    obtain ⟨tree, htree⟩ := ihrest inner hinner.shaped hinner.binds
    refine ⟨tree, { htree with leaves := ?_ }⟩
    rw [htree.leaves, hinner.leaves, hright.leaves]
    simp
  | @negative minus front operand hminus hfront hoperand ih =>
    obtain ⟨inner, hinner⟩ := ih
    refine ⟨_, .negative hminus hfront hinner.shaped,
      (binds_negative hminus hfront hinner.shaped.isNoise).2 ⟨hinner.binds, hinner.priority⟩,
      Nat.le_refl _, ?_⟩
    rw [leaves_negative hminus hfront, hinner.leaves]
    rfl
  | scaled h ih =>
    obtain ⟨tree, htree⟩ := ih
    exact ⟨tree, { htree with priority := Nat.le_of_succ_le htree.priority }⟩
  | primary h ih => exact ih
  | percentage hoperand hpercent ih =>
    obtain ⟨inner, hinner⟩ := ih
    refine ⟨_, .percentage hinner.shaped hpercent,
      (binds_percentage hinner.shaped.isNoise hpercent).2 ⟨hinner.binds, hinner.priority⟩,
      Nat.le_refl _, ?_⟩
    rw [leaves_percentage hpercent, hinner.leaves]
  | operand h =>
    refine ⟨_, .operand h, ?_, ?_, leaves_operand h⟩
    · -- an operand is one leaf: nothing in it is joined
      obtain ⟨kind, text, rfl⟩ := exists_of_isOperand h
      exact binds_leaf kind text
    · obtain ⟨kind, text, rfl⟩ := exists_of_isOperand h
      exact Nat.le_succ _
  | range hfirst hcolon hlast =>
    exact ⟨_, .range hfirst hcolon hlast, binds_range hfirst hcolon hlast, Nat.le_succ _,
      leaves_range hfirst hcolon hlast⟩
  | emptyCall hname hopener hfront hcloser =>
    exact ⟨_, .emptyCall hname hopener hfront hcloser,
      binds_emptyCall hname hopener hfront hcloser, Nat.le_succ _,
      leaves_emptyCall hname hopener hfront hcloser⟩
  | call hname hopener hfront harguments hcloser ih =>
    obtain ⟨arguments, tokens, hseparated, harguments, hleaves⟩ := ih
    have hsignificant := hseparated.significant_eq fun argument hargument =>
      (harguments argument hargument).1.isNoise
    refine ⟨_, .call hname hopener hfront hseparated
      (fun argument hargument => (harguments argument hargument).1) hcloser,
      (binds_call hname hopener hfront hsignificant hcloser).2
        fun argument hargument => (harguments argument hargument).2, Nat.le_succ _, ?_⟩
    refine Eq.trans (leaves_call hname hopener hfront hcloser) ?_
    rw [hleaves]
    simp
  | group hopener hfront hbody hback hcloser ih =>
    obtain ⟨body, hbody⟩ := ih
    refine ⟨_, .group hopener hfront hbody.shaped hback hcloser,
      (binds_group hopener hfront hbody.shaped.isNoise hback hcloser).2 hbody.binds,
      Nat.le_succ _, ?_⟩
    rw [leaves_group hopener hfront hback hcloser, hbody.leaves]
    simp
  | lastArgument hargument hback ih =>
    obtain ⟨argument, hargument⟩ := ih
    refine ⟨[argument], _, .last argument hback,
      List.forall_mem_singleton.2 ⟨hargument.shaped, hargument.binds⟩, ?_⟩
    rw [List.flatMap_cons, hargument.leaves, hback.flatMap_leaves]
  | argument hargument hback hcomma hfront hrest ihargument ihrest =>
    obtain ⟨argument, hargument⟩ := ihargument
    obtain ⟨arguments, tokens, hseparated, harguments, hleaves⟩ := ihrest
    refine ⟨argument :: arguments, _, .more argument hback hcomma hfront hseparated,
      List.forall_mem_cons.2 ⟨⟨hargument.shaped, hargument.binds⟩, harguments⟩, ?_⟩
    simp [List.flatMap_append, hargument.leaves, hback.flatMap_leaves, hfront.flatMap_leaves,
      leaves_of_isNoise (isNoise_of_isMark hcomma), hleaves]

/-- **The reader accepts what the grammar derives**, and nothing else. A
derivation has a tree, which the reader comes to
(`ShapedFormula.ofLexemes?_eq`); and the tree of a reading is shaped, so its
leaves are derived. -/
theorem exists_ofLexemes?_iff (finish : Nat) (input : List Lexeme) :
    (∃ token, Token.ofLexemes? finish input = .ok token)
      ↔ Derives .formula (input.map Lexeme.token) := by
  constructor
  · rintro ⟨tree, htree⟩
    obtain ⟨hshaped, hbinds, hleaves⟩ := shapedFormula_of_ofLexemes? htree
    cases hshaped with
    | intro hequals hfront hbody hback =>
      rw [binds_formula hequals hfront hbody.isNoise hback] at hbinds
      have hformula := Derives.formula hequals hfront (hbody.derives hbinds).expression hback
      rw [hleaves, leaves_formula hequals hfront hback]
      simpa using hformula
  · intro h
    obtain ⟨tree, hshaped, hbinds, hleaves⟩ := h.hasTree
    exact ⟨tree, hshaped.ofLexemes?_eq hbinds hleaves.symm finish⟩

end Worksheet.Formula
