import Worksheet.Proofs.Formula.Shape

/-!
# What the trees of formulas stand for

The expression of a node depends on the nodes below it that stand for something,
and on nothing else (`operands_eq`): blanks, commas and other marks only shape a
tree. For a shaped node it is put together from the expressions of its operands,
constructor by constructor, and for a group or a formula it is that of the one
operand.

So a shaped tree always comes to an expression, and what its leaves and the ways
of building expressions have in common, the expression has too
(`Shaped.exists_expression`).
-/

namespace Worksheet.Formula

open Token

/-- **The operands of a node** are the nodes below it that stand for something
(`significant`), each with its expression. -/
theorem operands_eq (tokens : List Token) :
    operands tokens = (significant tokens).map fun token => (token, token.expression?) := by
  induction tokens with
  | nil => rfl
  | cons token tokens ih =>
    rw [operands, ih]
    cases hnoise : token.isNoise with
    | true => rw [if_pos rfl, significant_cons_of_isNoise hnoise]
    | false => rw [if_neg Bool.false_ne_true, significant_cons hnoise, List.map_cons]

/-- The expression of a node whose operands are known. The lemmas below give it
for each kind of node. -/
theorem Token.expression?_join (kind : ParentKind) {children significants : List Token}
    (h : significant children = significants) :
    (join kind children).expression? = kind.expression? (joinedText children)
      (significants.map fun token => (token, token.expression?)) := by
  rw [join, expression?, operands_eq, h]

variable {front back : List Token} {opener closer sign left right operand : Token}
  {expression other : Expression}

/-- **Parentheses do not change** what is in them. -/
theorem expression?_group (hopener : opener.isMark .parenthesisOpen = true)
    (hfront : AllBlank front) (hoperand : operand.isNoise = false) (hback : AllBlank back)
    (hcloser : closer.isMark .parenthesisClose = true)
    (h : operand.expression? = .ok expression) :
    (Token.join .group (opener :: front ++ operand :: back ++ [closer])).expression?
      = .ok expression := by
  rw [expression?_join _ (significant_enclosed hopener hfront hoperand hback hcloser),
    List.map_singleton, h]
  rfl

theorem expression?_percentage (hoperand : operand.isNoise = false)
    (hsign : sign.isMark .percent = true) (h : operand.expression? = .ok expression) :
    (Token.join .percentage [operand, sign]).expression? = .ok (.percentage expression) := by
  rw [expression?_join _ (significant_marked hoperand hsign), List.map_singleton, h]
  rfl

theorem expression?_negative (hsign : sign.isMark (.operator .subtraction) = true)
    (hfront : AllBlank front) (hoperand : operand.isNoise = false)
    (h : operand.expression? = .ok expression) :
    (Token.join .negative (sign :: front ++ [operand])).expression?
      = .ok (.negative expression) := by
  rw [expression?_join _ (significant_signed hsign hfront hoperand), List.map_singleton, h]
  rfl

theorem expression?_binary {operator : Operator} (hleft : left.isNoise = false)
    (hfront : AllBlank front) (hsign : sign.isMark (.operator operator) = true)
    (hback : AllBlank back) (hright : right.isNoise = false)
    (h : left.expression? = .ok expression) (h' : right.expression? = .ok other) :
    (Token.join (.binary operator) (left :: front ++ sign :: back ++ [right])).expression?
      = .ok (.binary operator expression other) := by
  rw [expression?_join _ (significant_joined hleft hfront hsign hback hright), List.map_cons,
    List.map_singleton, h, h']
  rfl

/-- **Two cells around a colon** are the range they span, whichever corners they
are. -/
theorem expression?_range {first last : Cell} (text text' : List Char)
    (hsign : sign.isMark .between = true) :
    (Token.join .range [.leaf (.cell first) text, sign, .leaf (.cell last) text']).expression?
      = .ok (.reference (.range (.spanning first last))) := by
  have hsignificant : significant [.leaf (.cell first) text, sign, .leaf (.cell last) text']
      = [.leaf (.cell first) text, .leaf (.cell last) text'] :=
    significant_joined rfl allBlank_nil hsign allBlank_nil rfl
  rw [expression?_join _ hsignificant]
  rfl

theorem expression?_call {name text : List Char} {tokens arguments : List Token}
    {expressions : List Expression} (hopener : opener.isMark .parenthesisOpen = true)
    (hfront : AllBlank front) (htokens : significant tokens = arguments)
    (hcloser : closer.isMark .parenthesisClose = true)
    (h : expressionsOf (arguments.map fun token => (token, token.expression?))
      = .ok expressions) :
    (Token.join .call (.leaf (.functionName name) text :: opener :: front ++ tokens
      ++ [closer])).expression? = .ok (.call name expressions) := by
  rw [expression?_join _ (significant_call rfl hopener hfront htokens hcloser), List.map_cons]
  show (expressionsOf _).map _ = _
  rw [h]
  rfl

theorem expression?_emptyCall {name text : List Char}
    (hopener : opener.isMark .parenthesisOpen = true) (hfront : AllBlank front)
    (hcloser : closer.isMark .parenthesisClose = true) :
    (Token.join .call (.leaf (.functionName name) text :: opener :: front
      ++ [closer])).expression? = .ok (.call name []) := by
  have hcall : (Token.join .call (.leaf (.functionName name) text :: opener :: front ++ []
      ++ [closer])).expression? = .ok (.call name []) :=
    expression?_call hopener hfront rfl hcloser rfl
  rwa [List.append_nil] at hcall

/-- **A formula stands for** what is behind its equals sign. -/
theorem expression?_formula (hsign : sign.isMark (.operator .equal) = true)
    (hfront : AllBlank front) (hoperand : operand.isNoise = false) (hback : AllBlank back)
    (h : operand.expression? = .ok expression) :
    (Token.join .expression (sign :: front ++ operand :: back)).expression?
      = .ok expression := by
  rw [expression?_join _ (significant_formula hsign hfront hoperand hback), List.map_singleton, h]
  rfl

/-! ## Every shaped tree comes to an expression

Whatever is true of all operands and handed on by every way to build
expressions is true of the expression of a shaped tree. The induction on shapes
is made once for all such properties. -/

/-- **The leaves of a tree** all stand for something of some sort. -/
def Token.AllLeaves (p : LeafKind → Prop) (tree : Token) : Prop :=
  ∀ kind text, .leaf kind text ∈ tree.leaves → p kind

theorem Token.AllLeaves.of_leaf {p : LeafKind → Prop} {kind : LeafKind} {text : List Char}
    (h : (Token.leaf kind text).AllLeaves p) : p kind :=
  h kind text List.mem_cons_self

theorem Token.AllLeaves.of_mem {p : LeafKind → Prop} {kind : ParentKind} {children : List Token}
    (h : (join kind children).AllLeaves p) {child : Token} (hchild : child ∈ children) :
    child.AllLeaves p := by
  intro leafKind text hleaf
  refine h leafKind text ?_
  rw [leaves_join]
  exact List.mem_flatMap.2 ⟨child, hchild, hleaf⟩

/-- **A property is inherited from leaves** of some sort: operands that are such
leaves have it, and so has what is built of operands that have it. With the
property that always holds this is no more than that there is an expression. -/
structure Expression.Inherited (p : LeafKind → Prop) (P : Expression → Prop) : Prop where
  operand {kind : LeafKind} {text : List Char} {e : Expression}
    (hoperand : (Token.leaf kind text).isOperand = true) (hkind : p kind)
    (h : kind.expression? text = .ok e) : P e
  range {first last : Cell} (hfirst : p (.cell first)) (hlast : p (.cell last)) :
    P (.reference (.range (.spanning first last)))
  negative {e : Expression} (h : P e) : P (.negative e)
  percentage {e : Expression} (h : P e) : P (.percentage e)
  binary (operator : Operator) {left right : Expression} (hleft : P left) (hright : P right) :
    P (.binary operator left right)
  call {name : List Char} {expressions : List Expression} (hname : p (.functionName name))
    (h : ∀ e ∈ expressions, P e) : P (.call name expressions)

/-- An operand by itself comes to an expression. -/
theorem Token.exists_expression?_of_isOperand {kind : LeafKind} {text : List Char}
    (h : (Token.leaf kind text).isOperand = true) : ∃ e, kind.expression? text = .ok e := by
  cases kind <;> first | exact ⟨_, rfl⟩ | cases h

theorem exists_expressionsOf {P : Expression → Prop} {tokens : List Token}
    (h : ∀ token ∈ tokens, ∃ e, token.expression? = .ok e ∧ P e) :
    ∃ expressions, expressionsOf (tokens.map fun token => (token, token.expression?))
      = .ok expressions ∧ ∀ e ∈ expressions, P e := by
  induction tokens with
  | nil => exact ⟨[], rfl, fun _ he => absurd he List.not_mem_nil⟩
  | cons token tokens ih =>
    obtain ⟨e, he, hfirst⟩ := h token List.mem_cons_self
    obtain ⟨es, hes, hrest⟩ := ih fun other hother => h other (List.mem_cons_of_mem _ hother)
    refine ⟨e :: es, ?_, List.forall_mem_cons.2 ⟨hfirst, hrest⟩⟩
    rw [List.map_cons, he, expressionsOf, hes]
    rfl

/-- **A shaped tree comes to an expression**, and that has what is inherited
from the leaves (`Expression.Inherited`). By induction on the shape, with the
lemmas on kinds of nodes. -/
theorem Shaped.exists_expression {p : LeafKind → Prop} {P : Expression → Prop}
    (hP : Expression.Inherited p P) {tree : Token} (h : Shaped tree) (hleaves : tree.AllLeaves p) :
    ∃ e, tree.expression? = .ok e ∧ P e := by
  induction h with
  | operand h =>
    obtain ⟨kind, text, rfl⟩ := Token.exists_of_isOperand h
    obtain ⟨e, he⟩ := Token.exists_expression?_of_isOperand h
    exact ⟨e, he, hP.operand h hleaves.of_leaf he⟩
  | range hfirst hcolon hlast =>
    obtain ⟨first, text, rfl⟩ := Token.exists_of_isCell hfirst
    obtain ⟨last, text', rfl⟩ := Token.exists_of_isCell hlast
    have hfirst : (Token.leaf (.cell first) text).AllLeaves p := hleaves.of_mem (by simp)
    have hlast : (Token.leaf (.cell last) text').AllLeaves p := hleaves.of_mem (by simp)
    exact ⟨_, expression?_range _ _ hcolon, hP.range hfirst.of_leaf hlast.of_leaf⟩
  | group hopener hfront hbody hback hcloser ih =>
    obtain ⟨e, he, hinherited⟩ := ih (hleaves.of_mem (by simp))
    exact ⟨e, expression?_group hopener hfront hbody.isNoise hback hcloser he, hinherited⟩
  | emptyCall hname hopener hfront hcloser =>
    obtain ⟨name, text, rfl⟩ := Token.exists_of_isFunctionName hname
    have hfunction := (hleaves.of_mem List.mem_cons_self).of_leaf
    exact ⟨_, expression?_emptyCall hopener hfront hcloser,
      hP.call hfunction fun _ he => absurd he List.not_mem_nil⟩
  | call hname hopener hfront htokens harguments hcloser ih =>
    obtain ⟨name, text, rfl⟩ := Token.exists_of_isFunctionName hname
    have hfunction := (hleaves.of_mem List.mem_cons_self).of_leaf
    obtain ⟨expressions, hexpressions, hinherited⟩ := exists_expressionsOf
      fun argument hargument => ih argument hargument (hleaves.of_mem
        (List.mem_append_left _ (List.mem_append_right _ (htokens.subset hargument))))
    -- blanks and separators mean nothing: only the arguments are turned into
    -- expressions
    have hsignificant := htokens.significant_eq fun argument hargument =>
      (harguments argument hargument).isNoise
    exact ⟨_, expression?_call hopener hfront hsignificant hcloser hexpressions,
      hP.call hfunction hinherited⟩
  | percentage hoperand hpercent ih =>
    obtain ⟨e, he, hinherited⟩ := ih (hleaves.of_mem List.mem_cons_self)
    exact ⟨_, expression?_percentage hoperand.isNoise hpercent he, hP.percentage hinherited⟩
  | negative hminus hfront hoperand ih =>
    obtain ⟨e, he, hinherited⟩ := ih (hleaves.of_mem (by simp))
    exact ⟨_, expression?_negative hminus hfront hoperand.isNoise he, hP.negative hinherited⟩
  | binary hleft hfront hsign hback hright ihleft ihright =>
    obtain ⟨e, he, hinherited⟩ := ihleft (hleaves.of_mem (by simp))
    obtain ⟨e', he', hinherited'⟩ := ihright (hleaves.of_mem (by simp))
    exact ⟨_, expression?_binary hleft.isNoise hfront hsign hback hright.isNoise he he',
      hP.binary _ hinherited hinherited'⟩

/-- **A shaped formula comes to the expression** of the tree behind its equals
sign. -/
theorem ShapedFormula.exists_expression {p : LeafKind → Prop} {P : Expression → Prop}
    (hP : Expression.Inherited p P) {tree : Token} (h : ShapedFormula tree)
    (hleaves : tree.AllLeaves p) : ∃ e, tree.expression? = .ok e ∧ P e := by
  cases h with
  | intro hequals hfront hbody hback =>
    obtain ⟨e, he, hinherited⟩ := hbody.exists_expression hP (hleaves.of_mem (by simp))
    exact ⟨e, expression?_formula hequals hfront hbody.isNoise hback he, hinherited⟩

end Worksheet.Formula
