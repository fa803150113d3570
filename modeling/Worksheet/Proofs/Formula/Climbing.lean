import Worksheet.Proofs.Formula.Parsing
import Worksheet.Proofs.Formula.Shape

/-!
# Lexemes are read into the tree they are the leaves of

The grammar says where a node may stand by how tightly it binds, and the reader
climbs: groups and calls first, then percent signs, then minus signs, then the
operators by their priority. `Reads` says at which of these levels a tree is
read from its leaves, and that it is so at every level below: before percent
signs (`ReadsPostfix`), after minus signs (`ReadsUnary`), and as the left side
of whatever operators follow (`ReadsBinary`), as long as these bind no tighter
than the tree does.

An operand (`ReadsPrimary`) is read at every level, and a group or a call is one
whatever is in it. Every shaped tree that binds is read at the level of its
priority (`Shaped.reads`), blanks and all; so lexemes that are the leaves of the
tree of a formula are read into that tree (`ShapedFormula.ofLexemes?_eq`).
-/

namespace Worksheet.Formula

/-! ## Lexemes in front of others

A reader that has taken what it wanted passes over blanks and looks at the next
lexeme. These lemmas say what it sees when the lexemes in front of it are those
of a tree, and the rest behind them is any. -/

/-- Some lexemes that are not led by a blank. -/
def Unspaced (input : List Lexeme) : Prop :=
  ∀ lexeme ∈ input.head?, lexeme.isBlank = false

theorem Unspaced.afterBlanks_eq {input : List Lexeme} (h : Unspaced input) :
    afterBlanks input = input := by
  cases input with
  | nil => rfl
  | cons lexeme input => rw [afterBlanks, List.dropWhile_cons, h lexeme rfl]; rfl

theorem Unspaced.blanks_eq {input : List Lexeme} (h : Unspaced input) :
    blanks input = [] := by
  cases input with
  | nil => rfl
  | cons lexeme input => rw [blanks, List.takeWhile_cons, h lexeme rfl]; rfl

def Spaces (input : List Lexeme) : Prop :=
  ∀ lexeme ∈ input, lexeme.isBlank = true

theorem AllBlank.spaces {spaces : List Lexeme} (h : AllBlank (spaces.map Lexeme.token)) :
    Spaces spaces :=
  fun lexeme hlexeme => h lexeme.token (List.mem_map_of_mem hlexeme)

variable {spaces rest : List Lexeme}

/-- Blanks are passed over, whatever comes behind them. -/
theorem Spaces.afterBlanks_append (h : Spaces spaces) (rest : List Lexeme) :
    afterBlanks (spaces ++ rest) = afterBlanks rest :=
  List.dropWhile_append_of_pos h

theorem Spaces.afterBlanks_eq (h : Spaces spaces) (hrest : Unspaced rest) :
    afterBlanks (spaces ++ rest) = rest := by
  rw [h.afterBlanks_append, hrest.afterBlanks_eq]

theorem Spaces.blanks_eq (h : Spaces spaces) (hrest : Unspaced rest) :
    blanks (spaces ++ rest) = spaces.map Lexeme.token := by
  have hblanks := hrest.blanks_eq
  unfold blanks at hblanks ⊢
  rw [List.takeWhile_append_of_pos h, List.map_append, hblanks, List.append_nil]

theorem kind_eq_of_isMark {lexeme : Lexeme} {mark : Mark}
    (h : lexeme.token.isMark mark = true) : lexeme.kind = .mark mark := by
  obtain ⟨text, htoken⟩ := Token.exists_of_isMark h
  exact (Token.leaf.inj htoken).1

theorem unspaced_mark {lexeme : Lexeme} {mark : Mark} (h : lexeme.token.isMark mark = true)
    (rest : List Lexeme) : Unspaced (lexeme :: rest) := by
  intro other hother
  rw [← Option.some.inj hother, Lexeme.isBlank, kind_eq_of_isMark h]
  rfl

/-! ## Levels

One notion for each level of the grammar, all of the same form: a tree is read
from its leaves, before a rest that may follow there, and what is left is the
rest. `Follows` says which rests may follow, and depends on the priority of the
tree only. -/

/-- No colon comes next. A colon behind a cell would make a range of it. -/
def NoColon (rest : List Lexeme) : Prop :=
  ∀ lexeme ∈ rest.head?, lexeme.kind.isMark .between = false

/-- **What may follow an operand that binds with a priority**, blanks left
aside: the end, a comma, a closing parenthesis, or an operator that binds no
tighter. For priority zero this is what may follow any expression. -/
def Follows (priority : Nat) (rest : List Lexeme) : Prop :=
  ∀ lexeme ∈ (afterBlanks rest).head?, lexeme.kind = .mark .separator ∨
    lexeme.kind = .mark .parenthesisClose ∨
    ∃ operator : Operator, lexeme.kind = .mark (.operator operator) ∧
      operator.priority ≤ priority

theorem follows_nil (priority : Nat) : Follows priority [] :=
  fun _ h => absurd h (Option.not_mem_none _)

theorem follows_mark {lexeme : Lexeme} {mark : Mark} {priority : Nat}
    (h : lexeme.token.isMark mark = true)
    (hmark : mark = .separator ∨ mark = .parenthesisClose ∨
      ∃ operator : Operator, mark = .operator operator ∧ operator.priority ≤ priority)
    (rest : List Lexeme) : Follows priority (lexeme :: rest) := by
  intro other hother
  rw [(unspaced_mark h rest).afterBlanks_eq] at hother
  rw [← Option.some.inj hother, kind_eq_of_isMark h]
  rcases hmark with rfl | rfl | ⟨operator, rfl, hpriority⟩
  · exact Or.inl rfl
  · exact Or.inr (Or.inl rfl)
  · exact Or.inr (Or.inr ⟨operator, rfl, hpriority⟩)

theorem Follows.append {priority : Nat} (h : Follows priority rest) (hspaces : Spaces spaces) :
    Follows priority (spaces ++ rest) := by
  unfold Follows
  rwa [hspaces.afterBlanks_append]

/-- A tighter operand may be followed by more. -/
theorem Follows.mono {priority priority' : Nat} (h : Follows priority rest)
    (hle : priority ≤ priority') : Follows priority' rest :=
  fun lexeme hlexeme => (h lexeme hlexeme).imp_right fun h =>
    h.imp_right fun ⟨operator, hkind, hpriority⟩ =>
      ⟨operator, hkind, Nat.le_trans hpriority hle⟩

/-- What follows an operand is no colon and no percent sign. Both are read
without passing over blanks, which is why the lexeme itself is looked at. -/
theorem Follows.head {priority : Nat} (h : Follows priority rest) :
    ∀ lexeme ∈ rest.head?, lexeme.kind.isMark .between = false ∧
      lexeme.kind.isMark .percent = false := by
  intro lexeme hlexeme
  cases rest with
  | nil => cases hlexeme
  | cons first rest =>
    obtain rfl := Option.some.inj hlexeme
    cases hblank : first.isBlank with
    | true =>
      unfold Lexeme.isBlank at hblank
      cases hkind : first.kind with
      | blank => exact ⟨rfl, rfl⟩
      | _ => rw [hkind] at hblank; cases hblank
    | false =>
      have hspace : Unspaced (first :: rest) := fun _ hother => Option.some.inj hother ▸ hblank
      unfold Follows at h
      rw [hspace.afterBlanks_eq] at h
      rcases h first rfl with hkind | hkind | ⟨operator, hkind, -⟩ <;> rw [hkind]
      · exact ⟨rfl, rfl⟩
      · exact ⟨rfl, rfl⟩
      · exact ⟨rfl, rfl⟩

theorem Follows.noColon {priority : Nat} (h : Follows priority rest) : NoColon rest :=
  fun lexeme hlexeme => (h.head lexeme hlexeme).1

theorem Follows.readPercents_eq {priority : Nat} (h : Follows priority rest)
    (operand : Token) : readPercents operand rest = (operand, rest) := by
  cases rest with
  | nil => rfl
  | cons lexeme rest =>
    rw [readPercents, (h.head lexeme rfl).2]
    rfl

variable (finish : Nat)

/-- **Operators that bind less tightly are left alone.** None binds so weakly as
not to bind at all, which is why priority zero is no exception. -/
theorem Follows.readOperations_eq {priority least : Nat} (h : Follows priority rest)
    (hleast : priority < least ∨ priority = 0) (left : Token) :
    outcome (readOperations finish least left rest) = .ok (left, rest) := by
  rw [outcome_readOperations]
  unfold Follows at h
  cases hrest : afterBlanks rest with
  | nil => rfl
  | cons lexeme more =>
    rw [hrest] at h
    dsimp only
    rcases h lexeme rfl with hkind | hkind | ⟨operator, hkind, hpriority⟩ <;> rw [hkind]
    · rfl
    · rfl
    · rcases hleast with hleast | rfl
      · exact if_pos (Nat.lt_of_le_of_lt hpriority hleast)
      · exact absurd operator.priority_pos (Nat.not_lt.2 hpriority)

def LeavesOf (tree : Token) (lexemes : List Lexeme) : Prop :=
  lexemes.map Lexeme.token = tree.leaves

/-- A tree is read as an operand, from its leaves and in front of whatever is no
colon. -/
def ReadsPrimary (tree : Token) : Prop :=
  ∀ lexemes rest, LeavesOf tree lexemes → NoColon rest →
    outcome (readPrimary finish (lexemes ++ rest)) = .ok (tree, rest)

/-- A tree is read as an operand that percent signs may follow. What the percent
signs make of the tree is left to `readPercents` on both sides, so that the tree
itself may end with some. -/
def ReadsPostfix (tree : Token) : Prop :=
  ∀ lexemes rest, LeavesOf tree lexemes → NoColon rest →
    (∀ lexeme ∈ lexemes.head?, lexeme.kind.isMark (.operator .subtraction) = false) ∧
      (outcome (readPrimary finish (lexemes ++ rest))).map
          (fun found => readPercents found.1 found.2)
        = .ok (readPercents tree rest)

/-- A tree is read as an operand that minus signs may stand before. -/
def ReadsUnary (tree : Token) : Prop :=
  ∀ lexemes rest, LeavesOf tree lexemes → ∀ priority, Follows priority rest →
    outcome (readUnary finish (lexemes ++ rest)) = .ok (tree, rest)

/-- A tree is read as the left side of the operators that follow. Where it is
the first of a row, reading the row is going on behind the tree. -/
def ReadsBinary (tree : Token) : Prop :=
  ∀ lexemes rest, LeavesOf tree lexemes → Follows tree.priority rest →
    ∀ least ≤ tree.priority,
      outcome (readBinary finish least (lexemes ++ rest))
        = outcome (readOperations finish least tree rest)

/-- Leaves that are led by no blank and no closing parenthesis. It tells a call
with arguments from one without. -/
def Led (leaves : List Token) : Prop :=
  ∃ first tokens, leaves = first :: tokens ∧ first.isBlank = false ∧
    first.isMark .parenthesisClose = false

/-- **A tree is read from its leaves** at the level of its priority, and at
those below. It is what the induction over trees carries. -/
structure Reads (tree : Token) : Prop where
  /-- It is led by no blank and no closing parenthesis. -/
  led : Led tree.leaves
  /-- It goes before percent signs. -/
  beforePercent : Expression.percentagePriority ≤ tree.priority → ReadsPostfix finish tree
  /-- It goes after minus signs. -/
  afterMinus : Expression.negativePriority ≤ tree.priority → ReadsUnary finish tree
  /-- It goes between operators. -/
  asLeft : ReadsBinary finish tree

variable {finish : Nat}

theorem Led.exists_cons {leaves : List Token} (h : Led leaves) {lexemes : List Lexeme}
    (hlexemes : lexemes.map Lexeme.token = leaves) :
    ∃ first tail, lexemes = first :: tail ∧ first.isBlank = false ∧
      first.kind.isMark .parenthesisClose = false := by
  obtain ⟨first, tokens, rfl, hblank, hclose⟩ := h
  obtain ⟨lexeme, tail, rfl, rfl, -⟩ := List.map_eq_cons_iff.1 hlexemes
  exact ⟨lexeme, tail, rfl, hblank, hclose⟩

theorem Led.append {leaves : List Token} (h : Led leaves) (more : List Token) :
    Led (leaves ++ more) := by
  obtain ⟨first, tokens, rfl, hfirst⟩ := h
  exact ⟨first, tokens ++ more, rfl, hfirst⟩

theorem Led.ne_nil {leaves : List Token} (h : Led leaves) : leaves ≠ [] := by
  obtain ⟨first, tokens, rfl, -⟩ := h
  exact List.cons_ne_nil _ _

theorem led_of_isMark {first : Token} {mark : Mark} (h : first.isMark mark = true)
    (hmark : mark ≠ .parenthesisClose) (tokens : List Token) : Led (first :: tokens) := by
  obtain ⟨text, rfl⟩ := Token.exists_of_isMark h
  exact ⟨_, tokens, rfl, rfl, beq_eq_false_iff_ne.2 hmark⟩

theorem Led.unspaced {leaves : List Token} (h : Led leaves) {lexemes : List Lexeme}
    (hlexemes : lexemes.map Lexeme.token = leaves) (rest : List Lexeme) :
    Unspaced (lexemes ++ rest) := by
  obtain ⟨first, tail, rfl, hblank, -⟩ := h.exists_cons hlexemes
  exact fun _ hother => Option.some.inj hother ▸ hblank

/-- A tree is read up to what may follow an operand of any kind. -/
theorem Reads.readBinary_eq {tree : Token} (h : Reads finish tree)
    {lexemes : List Lexeme} (hlexemes : LeavesOf tree lexemes) (hrest : Follows 0 rest) :
    outcome (readBinary finish 0 (lexemes ++ rest)) = .ok (tree, rest) := by
  rw [h.asLeft lexemes rest hlexemes (hrest.mono (Nat.zero_le _)) 0 (Nat.zero_le _)]
  exact hrest.readOperations_eq finish (Or.inr rfl) tree

/-! ## From level to level

A tree that is read at one level is read at the next ones, since nothing
follows it that would take it up. The operators are the step with an argument:
an operator of the same priority on the right would have been taken into the
right operand. -/

theorem ReadsPostfix.readsUnary {tree : Token} (h : ReadsPostfix finish tree)
    (hne : tree.leaves ≠ []) : ReadsUnary finish tree := by
  intro lexemes rest hlexemes priority hrest
  obtain ⟨hminus, hread⟩ := h lexemes rest hlexemes hrest.noColon
  cases lexemes with
  | nil => exact absurd hlexemes.symm hne
  | cons first tail =>
    rw [List.cons_append, outcome_readUnary, hminus first rfl, if_neg Bool.false_ne_true]
    rw [List.cons_append] at hread
    rw [hread, hrest.readPercents_eq]

theorem ReadsUnary.readsBinary {tree : Token} (h : ReadsUnary finish tree) :
    ReadsBinary finish tree := by
  intro lexemes rest hlexemes hrest least _
  rw [outcome_readBinary, h lexemes rest hlexemes tree.priority hrest]
  rfl

/-- **An operand is read at every level**: no percent sign follows it, no minus
sign leads it, and no operator takes it up. -/
theorem Reads.of_primary {tree first : Token} {tokens : List Token}
    (hleaves : tree.leaves = first :: tokens) (hblank : first.isBlank = false)
    (hclose : first.isMark .parenthesisClose = false)
    (hminus : first.isMark (.operator .subtraction) = false)
    (h : ReadsPrimary finish tree) : Reads finish tree := by
  have hled : Led tree.leaves := ⟨first, tokens, hleaves, hblank, hclose⟩
  have hpostfix : ReadsPostfix finish tree := by
    intro lexemes rest hlexemes hrest
    refine ⟨fun lexeme hlexeme => ?_, ?_⟩
    · rw [LeavesOf, hleaves] at hlexemes
      obtain ⟨other, tail, rfl, rfl, -⟩ := List.map_eq_cons_iff.1 hlexemes
      rw [← Option.some.inj hlexeme]
      exact hminus
    · rw [h lexemes rest hlexemes hrest]
      rfl
  have hunary := hpostfix.readsUnary hled.ne_nil
  exact ⟨hled, fun _ => hpostfix, fun _ => hunary, hunary.readsBinary⟩

/-- **Percent signs after an operand.** The operand may itself end with percent
signs, as they are read one after the other. -/
theorem Reads.percentage {operand percent : Token} (h : Reads finish operand)
    (hpriority : Expression.percentagePriority ≤ operand.priority)
    (hpercent : percent.isMark .percent = true) :
    Reads finish (.join .percentage [operand, percent]) := by
  have hleaves : (Token.join .percentage [operand, percent]).leaves = _ :=
    leaves_percentage hpercent
  have hpostfix : ReadsPostfix finish (.join .percentage [operand, percent]) := by
    intro lexemes rest hlexemes hrest
    rw [LeavesOf, hleaves] at hlexemes
    obtain ⟨inner, last, rfl, hinner, hlast⟩ := List.map_eq_append_iff.1 hlexemes
    obtain ⟨sign, rfl, rfl⟩ := List.map_eq_singleton_iff.1 hlast
    have hkind := kind_eq_of_isMark hpercent
    have hcolon : NoColon (sign :: rest) := by
      intro other hother
      rw [← Option.some.inj hother, hkind]
      rfl
    -- the percent sign is taken by the loop that the operand is read before
    obtain ⟨hminus, hread⟩ := h.beforePercent hpriority inner (sign :: rest) hinner hcolon
    refine ⟨fun lexeme hlexeme => ?_, ?_⟩
    · obtain ⟨first, tail, rfl, -, -⟩ := h.led.exists_cons hinner
      exact hminus lexeme hlexeme
    · rw [List.append_assoc, List.singleton_append, hread, readPercents, hkind]
      rfl
  have hled : Led (Token.join .percentage [operand, percent]).leaves :=
    hleaves ▸ h.led.append _
  have hunary := hpostfix.readsUnary hled.ne_nil
  exact ⟨hled, fun _ => hpostfix, fun _ => hunary, hunary.readsBinary⟩

/-- **A minus sign before an operand**, which binds more tightly than any
operator between operands. -/
theorem Reads.negative {minus operand : Token} {front : List Token} (h : Reads finish operand)
    (hpriority : Expression.negativePriority ≤ operand.priority)
    (hminus : minus.isMark (.operator .subtraction) = true) (hfront : AllBlank front) :
    Reads finish (.join .negative (minus :: front ++ [operand])) := by
  have hleaves : (Token.join .negative (minus :: front ++ [operand])).leaves = _ :=
    leaves_negative hminus hfront
  have hunary : ReadsUnary finish (.join .negative (minus :: front ++ [operand])) := by
    intro lexemes rest hlexemes priority hrest
    rw [LeavesOf, hleaves] at hlexemes
    obtain ⟨sign, more, rfl, rfl, h₁⟩ := List.map_eq_cons_iff.1 hlexemes
    obtain ⟨spaces, inner, rfl, rfl, hinner⟩ := List.map_eq_append_iff.1 h₁
    have hspace := h.led.unspaced hinner rest
    rw [List.cons_append, List.append_assoc, outcome_readUnary,
      if_pos (show sign.kind.isMark _ = true from hminus), hfront.spaces.afterBlanks_eq hspace,
      hfront.spaces.blanks_eq hspace, h.afterMinus hpriority inner rest hinner priority hrest]
    rfl
  refine ⟨?_, fun hle => absurd hle (Nat.not_succ_le_self _), fun _ => hunary, hunary.readsBinary⟩
  rw [hleaves]
  exact led_of_isMark hminus (by decide) _

/-- **An operator between operands.** The left one binds as tightly, the right
one more tightly: this is where operators of one priority come to be grouped
from the left. -/
theorem Reads.binary {operator : Operator} {left sign right : Token} {front back : List Token}
    (hleft : Reads finish left) (hright : Reads finish right)
    (hpriority : operator.priority ≤ left.priority)
    (hpriority' : operator.priority < right.priority) (hfront : AllBlank front)
    (hsign : sign.isMark (.operator operator) = true) (hback : AllBlank back) :
    Reads finish (.join (.binary operator) (left :: front ++ sign :: back ++ [right])) := by
  have hleaves : (Token.join (.binary operator)
      (left :: front ++ sign :: back ++ [right])).leaves = _ := leaves_binary hfront hsign hback
  have hlow : operator.priority < Expression.negativePriority :=
    Nat.lt_succ_of_le operator.priority_le_maxPriority
  have hbinary : ReadsBinary finish
      (.join (.binary operator) (left :: front ++ sign :: back ++ [right])) := by
    intro lexemes rest hlexemes hrest least hleast
    replace hrest : Follows operator.priority rest := hrest
    replace hleast : least ≤ operator.priority := hleast
    rw [LeavesOf, hleaves] at hlexemes
    obtain ⟨operand, more, rfl, hoperand, h₁⟩ := List.map_eq_append_iff.1 hlexemes
    obtain ⟨spaces, more, rfl, rfl, h₂⟩ := List.map_eq_append_iff.1 h₁
    obtain ⟨mark, more, rfl, rfl, h₃⟩ := List.map_eq_cons_iff.1 h₂
    obtain ⟨spaces', operand', rfl, rfl, hoperand'⟩ := List.map_eq_append_iff.1 h₃
    have hkind := kind_eq_of_isMark hsign
    have hspace := hright.led.unspaced hoperand' rest
    have hmark := unspaced_mark hsign (spaces' ++ operand' ++ rest)
    have hfollows : Follows left.priority (spaces ++ mark :: (spaces' ++ operand' ++ rest)) :=
      (follows_mark hsign (Or.inr (Or.inr ⟨operator, rfl, hpriority⟩)) _).append hfront.spaces
    rw [List.append_assoc, List.append_assoc, List.cons_append,
      hleft.asLeft operand _ hoperand hfollows least (Nat.le_trans hleast hpriority),
      outcome_readOperations, hfront.spaces.afterBlanks_eq hmark, hfront.spaces.blanks_eq hmark]
    dsimp only
    rw [hkind]
    dsimp only [LeafKind.operator?, Mark.operator?]
    -- the operator is not too weak for where the left operand was read
    rw [if_neg (Nat.not_lt.2 hleast), List.append_assoc, hback.spaces.afterBlanks_eq hspace,
      hback.spaces.blanks_eq hspace, hright.asLeft operand' rest hoperand'
        (hrest.mono (Nat.le_of_lt hpriority')) _ hpriority',
      hrest.readOperations_eq finish (Or.inl (Nat.lt_succ_self _))]
    rfl
  refine ⟨hleaves ▸ hleft.led.append _, fun hle => ?_, fun hle => ?_, hbinary⟩
  · exact absurd (Nat.lt_of_lt_of_le (Nat.lt_succ_self _) hle) (Nat.not_lt.2 (Nat.le_of_lt hlow))
  · exact absurd hle (Nat.not_le.2 hlow)

/-! ## Groups and calls

What is in parentheses is read as an expression of its own, up to a comma or
the closing parenthesis, both of which may follow any expression. -/

/-- **A group is an operand**, whatever is in it. -/
theorem Reads.group {opener body closer : Token} {front back : List Token}
    (h : Reads finish body) (hopener : opener.isMark .parenthesisOpen = true)
    (hfront : AllBlank front) (hback : AllBlank back)
    (hcloser : closer.isMark .parenthesisClose = true) :
    Reads finish (.join .group (opener :: front ++ body :: back ++ [closer])) := by
  have hleaves : (Token.join .group (opener :: front ++ body :: back ++ [closer])).leaves = _ :=
    leaves_group hopener hfront hback hcloser
  obtain ⟨text, hmark⟩ := Token.exists_of_isMark hopener
  refine Reads.of_primary hleaves (hmark ▸ rfl) (hmark ▸ rfl) (hmark ▸ rfl) ?_
  intro lexemes rest hlexemes _
  rw [LeavesOf, hleaves] at hlexemes
  -- the lexemes, cut as the group's parts are
  obtain ⟨first, more, rfl, rfl, h₁⟩ := List.map_eq_cons_iff.1 hlexemes
  obtain ⟨spaces, more, rfl, rfl, h₂⟩ := List.map_eq_append_iff.1 h₁
  obtain ⟨inner, more, rfl, hinner, h₃⟩ := List.map_eq_append_iff.1 h₂
  obtain ⟨spaces', more, rfl, rfl, h₄⟩ := List.map_eq_append_iff.1 h₃
  obtain ⟨last, rfl, rfl⟩ := List.map_eq_singleton_iff.1 h₄
  have hclose := unspaced_mark hcloser rest
  -- the closing parenthesis ends the body at every priority
  have hfollows : Follows 0 (spaces' ++ last :: rest) :=
    (follows_mark hcloser (Or.inr (Or.inl rfl)) rest).append hback.spaces
  have hspace := h.led.unspaced hinner (spaces' ++ last :: rest)
  have hinput : spaces ++ (inner ++ (spaces' ++ [last])) ++ rest
      = spaces ++ (inner ++ (spaces' ++ last :: rest)) := by simp
  rw [List.cons_append, hinput, outcome_readPrimary, kind_eq_of_isMark hopener]
  dsimp only
  rw [outcome_readGroup, hfront.spaces.afterBlanks_eq hspace, hfront.spaces.blanks_eq hspace,
    h.readBinary_eq hinner hfollows]
  dsimp only [Except.bind]
  rw [hback.spaces.afterBlanks_eq hclose]
  dsimp only
  rw [hback.spaces.blanks_eq hclose, if_pos (show last.kind.isMark _ = true from hcloser)]

theorem Separated.led {arguments tokens : List Token} (h : Separated arguments tokens)
    (hreads : ∀ argument ∈ arguments, Reads finish argument) :
    Led (tokens.flatMap Token.leaves) := by
  cases h with
  | last argument hback =>
    rw [List.flatMap_cons]
    exact (hreads argument List.mem_cons_self).led.append _
  | more argument hback hcomma hfront h =>
    rw [List.cons_append, List.cons_append, List.flatMap_cons]
    exact (hreads argument List.mem_cons_self).led.append _

/-- **Arguments are read one after the other** up to the closing parenthesis, by
induction on how they are separated. What was read before is carried along and
stays in front. -/
theorem Separated.readArguments_eq {arguments tokens : List Token}
    (h : Separated arguments tokens) (hreads : ∀ argument ∈ arguments, Reads finish argument)
    (before : List Token) {lexemes : List Lexeme}
    (hlexemes : lexemes.map Lexeme.token = tokens.flatMap Token.leaves) {closer : Lexeme}
    (hcloser : closer.token.isMark .parenthesisClose = true) (rest : List Lexeme) :
    outcome (readArguments finish before (lexemes ++ closer :: rest))
      = .ok (.join .call (before ++ tokens ++ [closer.token]), rest) := by
  induction h generalizing before lexemes with
  | last argument hback =>
    rw [List.flatMap_cons, hback.flatMap_leaves] at hlexemes
    obtain ⟨inner, spaces, rfl, hinner, rfl⟩ := List.map_eq_append_iff.1 hlexemes
    have hclose := unspaced_mark hcloser rest
    have hfollows : Follows 0 (spaces ++ closer :: rest) :=
      (follows_mark hcloser (Or.inr (Or.inl rfl)) rest).append hback.spaces
    have hseparator : closer.kind.isMark .separator = false := by
      rw [kind_eq_of_isMark hcloser]
      rfl
    rw [outcome_readArguments, List.append_assoc,
      (hreads argument List.mem_cons_self).readBinary_eq hinner hfollows]
    dsimp only [Except.bind]
    rw [hback.spaces.afterBlanks_eq hclose]
    dsimp only
    rw [hback.spaces.blanks_eq hclose, hseparator, if_neg Bool.false_ne_true,
      if_pos (show closer.kind.isMark _ = true from hcloser)]
  | @more argument back front arguments tokens comma hback hcomma hfront h ih =>
    rw [List.flatMap_append, List.cons_append, List.flatMap_cons, List.flatMap_append,
      List.flatMap_cons, hback.flatMap_leaves, hfront.flatMap_leaves,
      Token.leaves_of_isNoise (Token.isNoise_of_isMark hcomma), List.append_assoc,
      List.append_assoc] at hlexemes
    obtain ⟨inner, more, rfl, hinner, h₁⟩ := List.map_eq_append_iff.1 hlexemes
    obtain ⟨spaces, more, rfl, rfl, h₂⟩ := List.map_eq_append_iff.1 h₁
    rw [List.append_assoc, List.singleton_append] at h₂
    obtain ⟨sign, more, rfl, rfl, h₃⟩ := List.map_eq_cons_iff.1 h₂
    obtain ⟨spaces', others, rfl, rfl, hothers⟩ := List.map_eq_append_iff.1 h₃
    -- the comma ends the first argument, and the others are read as if it came first
    have hreads' : ∀ argument ∈ arguments, Reads finish argument :=
      fun other hother => hreads other (List.mem_cons_of_mem _ hother)
    have hmark := unspaced_mark hcomma (spaces' ++ (others ++ closer :: rest))
    have hfollows : Follows 0 (spaces ++ sign :: (spaces' ++ (others ++ closer :: rest))) :=
      (follows_mark hcomma (Or.inl rfl) _).append hback.spaces
    have hspace := (h.led hreads').unspaced hothers (closer :: rest)
    have hinput : inner ++ (spaces ++ sign :: (spaces' ++ others)) ++ closer :: rest
        = inner ++ (spaces ++ sign :: (spaces' ++ (others ++ closer :: rest))) := by simp
    rw [hinput, outcome_readArguments,
      (hreads argument List.mem_cons_self).readBinary_eq hinner hfollows]
    dsimp only [Except.bind]
    rw [hback.spaces.afterBlanks_eq hmark]
    dsimp only
    rw [hback.spaces.blanks_eq hmark, if_pos (show sign.kind.isMark _ = true from hcomma),
      hfront.spaces.afterBlanks_eq hspace, hfront.spaces.blanks_eq hspace,
      ih hreads' _ hothers]
    simp

theorem Reads.of_name {name : Token} {tokens : List Token} (hname : name.isFunctionName = true)
    (h : ReadsPrimary finish (.join .call (name :: tokens))) :
    Reads finish (.join .call (name :: tokens)) := by
  obtain ⟨function, text, rfl⟩ := Token.exists_of_isFunctionName hname
  exact Reads.of_primary (Token.leaves_join _ _) rfl rfl rfl h

theorem outcome_readPrimary_name {name : Lexeme} (hname : name.token.isFunctionName = true)
    (rest : List Lexeme) :
    outcome (readPrimary finish (name :: rest)) = outcome (readCall finish name rest) := by
  obtain ⟨function, text, htoken⟩ := Token.exists_of_isFunctionName hname
  rw [outcome_readPrimary, (Token.leaf.inj htoken).1]

/-- **A call without arguments is an operand.** Blanks between its parentheses
belong to it. -/
theorem reads_emptyCall {name opener closer : Token} {front : List Token}
    (hname : name.isFunctionName = true) (hopener : opener.isMark .parenthesisOpen = true)
    (hfront : AllBlank front) (hcloser : closer.isMark .parenthesisClose = true) :
    Reads finish (.join .call (name :: opener :: front ++ [closer])) := by
  refine Reads.of_name hname ?_
  intro lexemes rest hlexemes _
  replace hlexemes := Eq.trans hlexemes (leaves_emptyCall hname hopener hfront hcloser)
  obtain ⟨function, more, rfl, rfl, h₁⟩ := List.map_eq_cons_iff.1 hlexemes
  obtain ⟨first, more, rfl, rfl, h₂⟩ := List.map_eq_cons_iff.1 h₁
  obtain ⟨spaces, more, rfl, rfl, h₃⟩ := List.map_eq_append_iff.1 h₂
  obtain ⟨last, rfl, rfl⟩ := List.map_eq_singleton_iff.1 h₃
  have hclose := unspaced_mark hcloser rest
  have hinput : spaces ++ [last] ++ rest = spaces ++ last :: rest := by simp
  rw [List.cons_append, List.cons_append, hinput, outcome_readPrimary_name hname,
    outcome_readCall,
    if_pos (show first.kind.isMark _ = true from hopener), hfront.spaces.afterBlanks_eq hclose,
    hfront.spaces.blanks_eq hclose]
  dsimp only
  rw [if_pos (show last.kind.isMark _ = true from hcloser)]
  rfl

/-- **A call is an operand**, whatever its arguments are. -/
theorem reads_call {name opener closer : Token} {front arguments tokens : List Token}
    (hname : name.isFunctionName = true) (hopener : opener.isMark .parenthesisOpen = true)
    (hfront : AllBlank front) (htokens : Separated arguments tokens)
    (hreads : ∀ argument ∈ arguments, Reads finish argument)
    (hcloser : closer.isMark .parenthesisClose = true) :
    Reads finish (.join .call (name :: opener :: front ++ tokens ++ [closer])) := by
  refine Reads.of_name hname ?_
  intro lexemes rest hlexemes _
  replace hlexemes := Eq.trans hlexemes (leaves_call hname hopener hfront hcloser)
  obtain ⟨function, more, rfl, rfl, h₁⟩ := List.map_eq_cons_iff.1 hlexemes
  obtain ⟨first, more, rfl, rfl, h₂⟩ := List.map_eq_cons_iff.1 h₁
  obtain ⟨spaces, more, rfl, rfl, h₃⟩ := List.map_eq_append_iff.1 h₂
  obtain ⟨inner, more, rfl, hinner, h₄⟩ := List.map_eq_append_iff.1 h₃
  obtain ⟨last, rfl, rfl⟩ := List.map_eq_singleton_iff.1 h₄
  have hled := htokens.led hreads
  have hspace := hled.unspaced hinner (last :: rest)
  have hread := htokens.readArguments_eq hreads
    (function.token :: first.token :: spaces.map Lexeme.token) hinner hcloser rest
  have hinput : spaces ++ (inner ++ [last]) ++ rest = spaces ++ (inner ++ last :: rest) := by simp
  rw [List.cons_append, List.cons_append, hinput, outcome_readPrimary_name hname,
    outcome_readCall,
    if_pos (show first.kind.isMark _ = true from hopener), hfront.spaces.afterBlanks_eq hspace,
    hfront.spaces.blanks_eq hspace]
  -- the arguments do not begin with the parenthesis that would end the call
  obtain ⟨lexeme, tail, rfl, -, hclose⟩ := hled.exists_cons hinner
  rw [List.cons_append] at hread ⊢
  dsimp only
  rw [if_neg (by rw [hclose]; exact Bool.false_ne_true), hread]
  rfl

/-! ## Operands and ranges -/

/-- Without a colon a cell is no range. -/
theorem NoColon.readReference_eq (h : NoColon rest) (first : Lexeme) :
    readReference first rest = (first.token, rest) := by
  unfold readReference
  split
  · rename_i between last more
    split
    · rw [h between rfl, if_neg Bool.false_ne_true]
    · rfl
  · rfl

/-- **A leaf that is an operand by itself.** -/
theorem reads_operand {token : Token} (h : token.isOperand = true) : Reads finish token := by
  obtain ⟨kind, text, rfl⟩ := Token.exists_of_isOperand h
  have hkind : kind.isBlank = false ∧ kind.isMark .parenthesisClose = false ∧
      kind.isMark (.operator .subtraction) = false := by
    cases kind <;> first | exact ⟨rfl, rfl, rfl⟩ | cases h
  refine Reads.of_primary rfl hkind.1 hkind.2.1 hkind.2.2 ?_
  intro lexemes rest hlexemes hrest
  obtain ⟨lexeme, rfl, htoken⟩ := List.map_eq_singleton_iff.1 hlexemes
  rw [List.singleton_append, outcome_readPrimary, ← htoken, (Token.leaf.inj htoken).1]
  cases kind with
  | cell target => exact congrArg Except.ok (hrest.readReference_eq lexeme)
  | number | text | boolean | error | label => rfl
  | _ => cases h

/-- **A range is an operand**: a cell, a colon and a cell with nothing between
them. -/
theorem reads_range {first colon last : Token} (hfirst : first.isCell = true)
    (hcolon : colon.isMark .between = true) (hlast : last.isCell = true) :
    Reads finish (.join .range [first, colon, last]) := by
  obtain ⟨target, text, rfl⟩ := Token.exists_of_isCell hfirst
  obtain ⟨target', text', rfl⟩ := Token.exists_of_isCell hlast
  have hleaves : (Token.join .range
      [.leaf (.cell target) text, colon, .leaf (.cell target') text']).leaves = _ :=
    leaves_range hfirst hcolon hlast
  refine Reads.of_primary hleaves rfl rfl rfl ?_
  intro lexemes rest hlexemes _
  rw [LeavesOf, hleaves] at hlexemes
  obtain ⟨begins, more, rfl, hbegins, h₁⟩ := List.map_eq_cons_iff.1 hlexemes
  obtain ⟨between, more, rfl, rfl, h₂⟩ := List.map_eq_cons_iff.1 h₁
  obtain ⟨ends, rfl, hends⟩ := List.map_eq_singleton_iff.1 h₂
  rw [List.cons_append, outcome_readPrimary, (Token.leaf.inj hbegins).1]
  dsimp only [List.cons_append, List.nil_append]
  rw [readReference, (Token.leaf.inj hends).1]
  dsimp only
  rw [if_pos (show between.kind.isMark _ = true from hcolon), hbegins, hends]

/-! ## Trees

Each constructor of `Shaped` has its lemma above, so the induction has nothing
left to do but to pass on what binds and what may follow. -/

/-- **A shaped tree that binds is read** at the level of its priority, by
induction on the tree with one lemma of the above for each constructor of
`Shaped`. -/
theorem Shaped.reads {tree : Token} (h : Shaped tree) (hbinds : tree.Binds) :
    Reads finish tree := by
  induction h with
  | operand h => exact reads_operand h
  | range hfirst hcolon hlast => exact reads_range hfirst hcolon hlast
  | group hopener hfront hbody hback hcloser ih =>
    rw [binds_group hopener hfront hbody.isNoise hback hcloser] at hbinds
    exact (ih hbinds).group hopener hfront hback hcloser
  | emptyCall hname hopener hfront hcloser => exact reads_emptyCall hname hopener hfront hcloser
  | call hname hopener hfront htokens harguments hcloser ih =>
    have hsignificant := htokens.significant_eq fun argument hargument =>
      (harguments argument hargument).isNoise
    rw [binds_call hname hopener hfront hsignificant hcloser] at hbinds
    exact reads_call hname hopener hfront htokens
      (fun argument hargument => ih argument hargument (hbinds argument hargument)) hcloser
  | percentage hoperand hpercent ih =>
    rw [binds_percentage hoperand.isNoise hpercent] at hbinds
    exact (ih hbinds.1).percentage hbinds.2 hpercent
  | negative hminus hfront hoperand ih =>
    rw [binds_negative hminus hfront hoperand.isNoise] at hbinds
    exact (ih hbinds.1).negative hbinds.2 hminus hfront
  | binary hleft hfront hsign hback hright ihleft ihright =>
    rw [binds_binary hleft.isNoise hfront hsign hback hright.isNoise] at hbinds
    obtain ⟨⟨hbinds, hbinds'⟩, hpriority, hpriority'⟩ := hbinds
    exact (ihleft hbinds).binary (ihright hbinds') hpriority hpriority' hfront hsign hback

/-- **Lexemes that are the leaves of the tree of a formula are read into it.**
So a tree that is shaped and binds is determined by its leaves. -/
theorem ShapedFormula.ofLexemes?_eq {tree : Token} (h : ShapedFormula tree)
    (hbinds : tree.Binds) {lexemes : List Lexeme} (hlexemes : LeavesOf tree lexemes)
    (finish : Nat) : Token.ofLexemes? finish lexemes = .ok tree := by
  obtain @⟨equals, body, front, back, hequals, hfront, hbody, hback⟩ := h
  have hreads : Reads finish body :=
    hbody.reads ((binds_formula hequals hfront hbody.isNoise hback).1 hbinds)
  rw [LeavesOf, leaves_formula hequals hfront hback] at hlexemes
  obtain ⟨first, more, rfl, rfl, h₁⟩ := List.map_eq_cons_iff.1 hlexemes
  obtain ⟨spaces, more, rfl, rfl, h₂⟩ := List.map_eq_append_iff.1 h₁
  obtain ⟨inner, spaces', rfl, hinner, rfl⟩ := List.map_eq_append_iff.1 h₂
  have hspace := hreads.led.unspaced hinner spaces'
  have hend : Unspaced [] := fun _ h => absurd h (Option.not_mem_none _)
  have hafter := hback.spaces.afterBlanks_eq hend
  have hblanks := hback.spaces.blanks_eq hend
  have hfollows := (follows_nil 0).append hback.spaces
  rw [List.append_nil] at hafter hblanks hfollows
  rw [ofLexemes?_cons, if_pos (show first.kind.isMark _ = true from hequals),
    hfront.spaces.afterBlanks_eq hspace, hreads.readBinary_eq hinner hfollows]
  dsimp only [Except.bind]
  rw [hafter, hblanks, hfront.spaces.blanks_eq hspace]

end Worksheet.Formula
