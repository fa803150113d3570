import Worksheet.Formula.Expression

/-!
# The shape of formula trees

Two things make a tree the tree of a formula. Its nodes have the children the
grammar gives them: a group its parentheses, a call its name and its commas, an
operator one operand on each side, and blanks only where blanks may stand. That
is `Shaped`, and for the whole with its equals sign `ShapedFormula`. It says
nothing of how tightly operators bind: `1+2*3` has two shaped trees.

Which of them is meant is said node by node. A node is `Token.Ordered` when what
it joins binds at least as tightly as the node itself, and a tree binds
(`Token.Binds`) when all of its nodes are ordered.

For a shaped node the order is a comparison of priorities (`binds_binary`,
`binds_negative`, `binds_percentage`); groups and calls shield what is in them
(`binds_group`, `binds_call`).
-/

namespace Worksheet.Formula

namespace Token

/-! ## Nodes

The nodes of a tree with what can be asked of them: whether they are blanks,
marks, operands, and which of the children stand for something. -/

mutual

/-- The nodes of a tree, every one before those below it. Unlike its leaves they
show how the tree is built. -/
def nodes : Token → List Token
  | .leaf kind text => [.leaf kind text]
  | .parent kind children text => .parent kind children text :: nodesAll children

def nodesAll : List Token → List Token
  | [] => []
  | token :: tokens => nodes token ++ nodesAll tokens

end

def isBlank : Token → Bool
  | .leaf kind _ => kind.isBlank
  | .parent .. => false

def isMark (expected : Mark) : Token → Bool
  | .leaf kind _ => kind.isMark expected
  | .parent .. => false

def isFunctionName : Token → Bool
  | .leaf (.functionName _) _ => true
  | _ => false

def isCell : Token → Bool
  | .leaf (.cell _) _ => true
  | _ => false

/-- Whether a node is an operand by itself: a literal, a label or a cell, as a
leaf. -/
def isOperand : Token → Bool
  | .leaf (.number _) _ | .leaf (.text _) _ | .leaf (.boolean _) _ | .leaf (.error _) _
  | .leaf (.label _) _ | .leaf (.cell _) _ => true
  | _ => false

/-- The operator of a node that joins two operands. -/
def operator? : Token → Option Operator
  | .parent (.binary operator) _ _ => some operator
  | _ => none

def isNegative : Token → Bool
  | .parent .negative _ _ => true
  | _ => false

/-- The nodes that stand for something. What `Token.isNoise` tells apart are
blanks and marks. -/
def significant (tokens : List Token) : List Token :=
  tokens.filter fun token => !token.isNoise

/-! ## Order

What a node asks of its operands is a condition on priorities. `Ordered` is
about one node and `Binds` about all of them, with nothing said of how the
nodes are made. -/

/-- **A node is ordered** when its operands bind as tightly as it asks of them.
The left operand of an operator is no weaker operator, and the right one neither
a weaker operator nor one of the same priority. No operator stands directly
behind a minus sign, and neither an operator nor a minus sign directly before a
percent sign. -/
def Ordered (node : Token) : Prop :=
  match node.parentKind? with
  | some (.binary operator) => ∃ left right, significant node.children = [left, right] ∧
      (∀ other ∈ left.operator?, operator.priority ≤ other.priority) ∧
      ∀ other ∈ right.operator?, operator.priority < other.priority
  | some .negative => ∀ operand ∈ significant node.children, operand.operator? = none
  | some .percentage => ∀ operand ∈ significant node.children,
      operand.operator? = none ∧ operand.isNegative = false
  | _ => True

/-- **A tree binds** when all of its nodes are ordered. It may be asked of any
tree; that the children are the right ones is left to `Shaped`. -/
def Binds (tree : Token) : Prop :=
  ∀ node ∈ tree.nodes, node.Ordered

/-- How tightly a node holds together. Leaves, groups and calls are nothing but
operands and hold together best of all. -/
def priority : Token → Nat
  | .parent (.binary operator) _ _ => operator.priority
  | .parent .negative _ _ => Expression.negativePriority
  | .parent .percentage _ _ => Expression.percentagePriority
  | _ => Expression.percentagePriority + 1

end Token

/-! ## Shape

The grammar of trees, one constructor for each kind of node. It says which
marks and blanks there are among the children and where. -/

/-- Nodes that are nothing but blanks. -/
def AllBlank (tokens : List Token) : Prop :=
  ∀ token ∈ tokens, token.isBlank = true

/-- **Arguments with commas between them**, and blanks around each but in front
of the first, where the blanks belong to the opening parenthesis. -/
inductive Separated : List Token → List Token → Prop
  | last (argument : Token) {back : List Token} (hback : AllBlank back) :
      Separated [argument] (argument :: back)
  | more (argument : Token) {back front arguments tokens : List Token} {comma : Token}
      (hback : AllBlank back) (hcomma : comma.isMark .separator = true)
      (hfront : AllBlank front) (h : Separated arguments tokens) :
      Separated (argument :: arguments) (argument :: back ++ comma :: front ++ tokens)

/-- **A tree whose nodes have the children the grammar gives them.** There is
one constructor for each kind of node, and the blanks stand where the reader
puts them. -/
inductive Shaped : Token → Prop
  | operand {token : Token} (h : token.isOperand = true) : Shaped token
  | range {first colon last : Token} (hfirst : first.isCell = true)
      (hcolon : colon.isMark .between = true) (hlast : last.isCell = true) :
      Shaped (.join .range [first, colon, last])
  | group {opener body closer : Token} {front back : List Token}
      (hopener : opener.isMark .parenthesisOpen = true) (hfront : AllBlank front)
      (hbody : Shaped body) (hback : AllBlank back)
      (hcloser : closer.isMark .parenthesisClose = true) :
      Shaped (.join .group (opener :: front ++ body :: back ++ [closer]))
  | emptyCall {name opener closer : Token} {front : List Token}
      (hname : name.isFunctionName = true) (hopener : opener.isMark .parenthesisOpen = true)
      (hfront : AllBlank front) (hcloser : closer.isMark .parenthesisClose = true) :
      Shaped (.join .call (name :: opener :: front ++ [closer]))
  | call {name opener closer : Token} {front arguments tokens : List Token}
      (hname : name.isFunctionName = true) (hopener : opener.isMark .parenthesisOpen = true)
      (hfront : AllBlank front) (htokens : Separated arguments tokens)
      (harguments : ∀ argument ∈ arguments, Shaped argument)
      (hcloser : closer.isMark .parenthesisClose = true) :
      Shaped (.join .call (name :: opener :: front ++ tokens ++ [closer]))
  | percentage {operand percent : Token} (hoperand : Shaped operand)
      (hpercent : percent.isMark .percent = true) :
      Shaped (.join .percentage [operand, percent])
  | negative {minus operand : Token} {front : List Token}
      (hminus : minus.isMark (.operator .subtraction) = true) (hfront : AllBlank front)
      (hoperand : Shaped operand) :
      Shaped (.join .negative (minus :: front ++ [operand]))
  | binary {operator : Operator} {left sign right : Token} {front back : List Token}
      (hleft : Shaped left) (hfront : AllBlank front)
      (hsign : sign.isMark (.operator operator) = true) (hback : AllBlank back)
      (hright : Shaped right) :
      Shaped (.join (.binary operator) (left :: front ++ sign :: back ++ [right]))

/-- **The tree of a formula**: an equals sign and a shaped tree, with blanks on
both sides of it. -/
inductive ShapedFormula : Token → Prop
  | intro {equals body : Token} {front back : List Token}
      (hequals : equals.isMark (.operator .equal) = true) (hfront : AllBlank front)
      (hbody : Shaped body) (hback : AllBlank back) :
      ShapedFormula (.join .expression (equals :: front ++ body :: back))

/-! ## Blanks and marks -/

theorem allBlank_nil : AllBlank [] :=
  fun _ h => absurd h List.not_mem_nil

namespace Token

theorem exists_of_isBlank {token : Token} (h : token.isBlank = true) :
    ∃ text, token = .leaf .blank text := by
  cases token with
  | leaf kind text => cases kind <;> first | exact ⟨text, rfl⟩ | cases h
  | parent kind children text => cases h

theorem exists_of_isMark {token : Token} {mark : Mark} (h : token.isMark mark = true) :
    ∃ text, token = .leaf (.mark mark) text := by
  cases token with
  | leaf kind text =>
    cases kind with
    | mark found => exact ⟨text, by rw [eq_of_beq (a := found) (b := mark) h]⟩
    | _ => cases h
  | parent kind children text => cases h

theorem exists_of_isFunctionName {token : Token} (h : token.isFunctionName = true) :
    ∃ name text, token = .leaf (.functionName name) text := by
  cases token with
  | leaf kind text => cases kind <;> first | exact ⟨_, text, rfl⟩ | cases h
  | parent kind children text => cases h

theorem exists_of_isCell {token : Token} (h : token.isCell = true) :
    ∃ target text, token = .leaf (.cell target) text := by
  cases token with
  | leaf kind text => cases kind <;> first | exact ⟨_, text, rfl⟩ | cases h
  | parent kind children text => cases h

theorem exists_of_isOperand {token : Token} (h : token.isOperand = true) :
    ∃ kind text, token = .leaf kind text := by
  cases token with
  | leaf kind text => exact ⟨kind, text, rfl⟩
  | parent kind children text => cases h

end Token

theorem AllBlank.isNoise {tokens : List Token} (h : AllBlank tokens) :
    ∀ token ∈ tokens, token.isNoise = true := by
  intro token htoken
  obtain ⟨text, rfl⟩ := Token.exists_of_isBlank (h token htoken)
  rfl

theorem Token.isNoise_of_isMark {token : Token} {mark : Mark} (h : token.isMark mark = true) :
    token.isNoise = true := by
  obtain ⟨text, rfl⟩ := exists_of_isMark h
  rfl

theorem Token.isNoise_of_isFunctionName {token : Token} (h : token.isFunctionName = true) :
    token.isNoise = false := by
  obtain ⟨name, text, rfl⟩ := exists_of_isFunctionName h
  rfl

/-- **A shaped tree stands for something**, so that `significant` keeps it. -/
theorem Shaped.isNoise {tree : Token} (h : Shaped tree) : tree.isNoise = false := by
  cases h with
  | operand h =>
    obtain ⟨kind, text, rfl⟩ := Token.exists_of_isOperand h
    cases kind <;> first | rfl | cases h
  | _ => rfl

theorem Separated.subset {arguments tokens : List Token} (h : Separated arguments tokens) :
    arguments ⊆ tokens := by
  induction h with
  | last argument hback =>
    intro token htoken
    rw [List.mem_singleton.1 htoken]
    exact List.mem_cons_self
  | more argument hback hcomma hfront h ih =>
    intro token htoken
    rcases List.mem_cons.1 htoken with rfl | htoken
    · exact List.mem_cons_self
    · exact List.mem_append_right _ (ih htoken)

/-! ## Nodes and leaves below a node

Leaves and nodes of a node are those of its children, one after the other, so
lists of children are gone through with `List.flatMap` from here on. -/

namespace Token

theorem leavesAll_eq (tokens : List Token) : leavesAll tokens = tokens.flatMap leaves := by
  induction tokens with
  | nil => rfl
  | cons token tokens ih => rw [leavesAll, ih, List.flatMap_cons]

theorem nodesAll_eq (tokens : List Token) : nodesAll tokens = tokens.flatMap nodes := by
  induction tokens with
  | nil => rfl
  | cons token tokens ih => rw [nodesAll, ih, List.flatMap_cons]

theorem leaves_join (kind : ParentKind) (children : List Token) :
    (join kind children).leaves = children.flatMap leaves :=
  leavesAll_eq children

theorem nodes_join (kind : ParentKind) (children : List Token) :
    (join kind children).nodes = join kind children :: children.flatMap nodes :=
  congrArg (_ :: ·) (nodesAll_eq children)

theorem leaves_of_isNoise {token : Token} (h : token.isNoise = true) : token.leaves = [token] := by
  cases token with
  | leaf kind text => rfl
  | parent kind children text => cases h

end Token

theorem AllBlank.flatMap_leaves {tokens : List Token} (h : AllBlank tokens) :
    tokens.flatMap Token.leaves = tokens := by
  induction tokens with
  | nil => rfl
  | cons token tokens ih =>
    have hfirst := Token.leaves_of_isNoise (h.isNoise token List.mem_cons_self)
    have hrest := ih fun other hother => h other (List.mem_cons_of_mem _ hother)
    rw [List.flatMap_cons, hfirst, hrest]
    rfl

open Token

variable {front back : List Token} {opener closer sign left right operand : Token}

/-! ## The leaves of shapes

Marks and blanks are leaves of their own, and every other child brings its
leaves in their order. There is one lemma for each constructor of `Shaped`. -/

theorem leaves_percentage (hsign : sign.isMark .percent = true) :
    (Token.join .percentage [operand, sign]).leaves = operand.leaves ++ [sign] := by
  rw [leaves_join, List.flatMap_cons, List.flatMap_singleton,
    leaves_of_isNoise (isNoise_of_isMark hsign)]

theorem leaves_negative (hsign : sign.isMark (.operator .subtraction) = true)
    (hfront : AllBlank front) :
    (Token.join .negative (sign :: front ++ [operand])).leaves
      = sign :: (front ++ operand.leaves) := by
  rw [leaves_join, List.cons_append, List.flatMap_cons, List.flatMap_append,
    hfront.flatMap_leaves, List.flatMap_singleton, leaves_of_isNoise (isNoise_of_isMark hsign)]
  rfl

theorem leaves_binary {operator : Operator} (hfront : AllBlank front)
    (hsign : sign.isMark (.operator operator) = true) (hback : AllBlank back) :
    (Token.join (.binary operator) (left :: front ++ sign :: back ++ [right])).leaves
      = left.leaves ++ (front ++ sign :: (back ++ right.leaves)) := by
  rw [leaves_join]
  simp [List.flatMap_append, hfront.flatMap_leaves, hback.flatMap_leaves,
    leaves_of_isNoise (isNoise_of_isMark hsign)]

theorem leaves_group (hopener : opener.isMark .parenthesisOpen = true) (hfront : AllBlank front)
    (hback : AllBlank back) (hcloser : closer.isMark .parenthesisClose = true) :
    (Token.join .group (opener :: front ++ operand :: back ++ [closer])).leaves
      = opener :: (front ++ (operand.leaves ++ (back ++ [closer]))) := by
  rw [leaves_join]
  simp [List.flatMap_append, hfront.flatMap_leaves, hback.flatMap_leaves,
    leaves_of_isNoise (isNoise_of_isMark hopener), leaves_of_isNoise (isNoise_of_isMark hcloser)]

/-- The leaves of a call are those of what is written between its parentheses. -/
theorem leaves_call {name : Token} {tokens : List Token} (hname : name.isFunctionName = true)
    (hopener : opener.isMark .parenthesisOpen = true) (hfront : AllBlank front)
    (hcloser : closer.isMark .parenthesisClose = true) :
    (Token.join .call (name :: opener :: front ++ tokens ++ [closer])).leaves
      = name :: opener :: (front ++ (tokens.flatMap leaves ++ [closer])) := by
  obtain ⟨function, text, rfl⟩ := exists_of_isFunctionName hname
  rw [leaves_join]
  simp [List.flatMap_append, hfront.flatMap_leaves, leaves,
    leaves_of_isNoise (isNoise_of_isMark hopener), leaves_of_isNoise (isNoise_of_isMark hcloser)]

theorem leaves_range {first last : Token} (hfirst : first.isCell = true)
    (hsign : sign.isMark .between = true) (hlast : last.isCell = true) :
    (Token.join .range [first, sign, last]).leaves = [first, sign, last] := by
  obtain ⟨target, text, rfl⟩ := exists_of_isCell hfirst
  obtain ⟨target', text', rfl⟩ := exists_of_isCell hlast
  rw [leaves_join]
  simp [leaves, leaves_of_isNoise (isNoise_of_isMark hsign)]

theorem leaves_operand (h : operand.isOperand = true) : operand.leaves = [operand] := by
  obtain ⟨kind, text, rfl⟩ := exists_of_isOperand h
  rfl

theorem leaves_emptyCall {name : Token} (hname : name.isFunctionName = true)
    (hopener : opener.isMark .parenthesisOpen = true) (hfront : AllBlank front)
    (hcloser : closer.isMark .parenthesisClose = true) :
    (Token.join .call (name :: opener :: front ++ [closer])).leaves
      = name :: opener :: (front ++ [closer]) := by
  have hleaves : (Token.join .call (name :: opener :: front ++ [] ++ [closer])).leaves = _ :=
    leaves_call hname hopener hfront hcloser
  rwa [List.append_nil] at hleaves

theorem leaves_formula (hsign : sign.isMark (.operator .equal) = true) (hfront : AllBlank front)
    (hback : AllBlank back) :
    (Token.join .expression (sign :: front ++ operand :: back)).leaves
      = sign :: (front ++ (operand.leaves ++ back)) := by
  rw [leaves_join]
  simp [List.flatMap_append, hfront.flatMap_leaves, hback.flatMap_leaves,
    leaves_of_isNoise (isNoise_of_isMark hsign)]

/-! ## Binding, node by node

For each constructor of `Shaped` there is a lemma on what it takes for the node
to bind. The children that stand for something are found first, and then their
priorities are compared. -/

namespace Token

/-- **A tree binds** when its root is ordered and the trees below it bind. -/
theorem binds_join {kind : ParentKind} {children : List Token} :
    (join kind children).Binds ↔
      (join kind children).Ordered ∧ ∀ child ∈ children, child.Binds := by
  unfold Binds
  rw [nodes_join, List.forall_mem_cons]
  refine and_congr_right fun _ => ⟨fun h child hchild node hnode => ?_, fun h node hnode => ?_⟩
  · exact h node (List.mem_flatMap.2 ⟨child, hchild, hnode⟩)
  · obtain ⟨child, hchild, hnode⟩ := List.mem_flatMap.1 hnode
    exact h child hchild node hnode

theorem binds_leaf (kind : LeafKind) (text : List Char) : (leaf kind text).Binds := by
  intro node hnode
  rw [List.mem_singleton.1 hnode]
  trivial

theorem binds_of_isNoise {token : Token} (h : token.isNoise = true) : token.Binds := by
  cases token with
  | leaf kind text => exact binds_leaf kind text
  | parent kind children text => cases h

/-- **Only what stands for something has to bind**, as blanks and marks do so
anyway. -/
theorem forall_binds_iff (tokens : List Token) :
    (∀ token ∈ tokens, token.Binds) ↔ ∀ token ∈ significant tokens, token.Binds := by
  refine ⟨fun h token htoken => h token (List.mem_filter.1 htoken).1, fun h token htoken => ?_⟩
  by_cases hnoise : token.isNoise = true
  · exact binds_of_isNoise hnoise
  · exact h token (List.mem_filter.2 ⟨htoken, by rw [Bool.eq_false_iff.2 hnoise]; rfl⟩)

/-! ### Priorities -/

/-- A node is as strong as a minus sign unless an operator joins it. -/
theorem le_priority_iff {token : Token} {least : Nat} (h : least ≤ Expression.negativePriority) :
    least ≤ token.priority ↔ ∀ other ∈ token.operator?, least ≤ other.priority := by
  have hpercent : least ≤ Expression.percentagePriority := Nat.le_succ_of_le h
  cases token with
  | leaf kind text => exact iff_of_true (Nat.le_succ_of_le hpercent) fun _ h => nomatch h
  | parent kind children text =>
    cases kind with
    | binary operator => exact ⟨fun hle _ h => Option.some.inj h ▸ hle, fun hle => hle _ rfl⟩
    | negative => exact iff_of_true h fun _ h => nomatch h
    | percentage => exact iff_of_true hpercent fun _ h => nomatch h
    | _ => exact iff_of_true (Nat.le_succ_of_le hpercent) fun _ h => nomatch h

theorem negativePriority_le_iff {token : Token} :
    Expression.negativePriority ≤ token.priority ↔ token.operator? = none := by
  rw [le_priority_iff (Nat.le_refl _), Option.eq_none_iff_forall_not_mem]
  exact forall₂_congr fun operator _ =>
    iff_false_intro (Nat.not_le.2 (Nat.lt_succ_of_le operator.priority_le_maxPriority))

/-- A node is as strong as a percent sign unless it is an operator or a minus
sign. -/
theorem percentagePriority_le_iff {token : Token} :
    Expression.percentagePriority ≤ token.priority
      ↔ token.operator? = none ∧ token.isNegative = false := by
  cases token with
  | leaf kind text => exact iff_of_true (Nat.le_succ _) ⟨rfl, rfl⟩
  | parent kind children text =>
    cases kind with
    | binary operator =>
      have hlt : operator.priority < Expression.percentagePriority :=
        Nat.lt_of_le_of_lt operator.priority_le_maxPriority (by decide)
      exact iff_of_false (Nat.not_le.2 hlt) fun h => nomatch h.1
    | negative => exact iff_of_false (Nat.not_succ_le_self _) fun h => nomatch h.2
    | percentage => exact iff_of_true (Nat.le_refl _) ⟨rfl, rfl⟩
    | _ => exact iff_of_true (Nat.le_succ _) ⟨rfl, rfl⟩

/-! ### The nodes that stand for something

Blanks and marks are filtered out of the children. What is left are the
operands of a node, however they are spaced. -/

theorem significant_append (front back : List Token) :
    significant (front ++ back) = significant front ++ significant back :=
  List.filter_append ..

theorem significant_cons {token : Token} (h : token.isNoise = false) (tokens : List Token) :
    significant (token :: tokens) = token :: significant tokens :=
  List.filter_cons_of_pos (by rw [h]; rfl)

theorem significant_cons_of_isNoise {token : Token} (h : token.isNoise = true)
    (tokens : List Token) : significant (token :: tokens) = significant tokens :=
  List.filter_cons_of_neg (by rw [h]; exact Bool.false_ne_true)

end Token

theorem AllBlank.significant_eq {tokens : List Token} (h : AllBlank tokens) :
    significant tokens = [] :=
  List.filter_eq_nil_iff.2 fun token htoken => by
    rw [h.isNoise token htoken]
    exact Bool.false_ne_true

/-- **Commas and blanks are left out** of what is written for arguments, by
induction on `Separated`. -/
theorem Separated.significant_eq {arguments tokens : List Token} (h : Separated arguments tokens)
    (harguments : ∀ argument ∈ arguments, argument.isNoise = false) :
    significant tokens = arguments := by
  induction h with
  | last argument hback =>
    rw [significant_cons (harguments _ List.mem_cons_self), hback.significant_eq]
  | more argument hback hcomma hfront h ih =>
    have hrest := ih fun other hother => harguments other (List.mem_cons_of_mem _ hother)
    rw [List.cons_append, List.cons_append, significant_cons (harguments _ List.mem_cons_self),
      significant_append, significant_append, hback.significant_eq,
      significant_cons_of_isNoise (isNoise_of_isMark hcomma), hfront.significant_eq, hrest]
    rfl

/-- What stands between two marks, blanks left aside. This and the lemmas that
follow find the operands of each kind of node, which is what `Ordered` speaks
of. -/
theorem significant_enclosed {mark mark' : Mark} (hopener : opener.isMark mark = true)
    (hfront : AllBlank front) (hoperand : operand.isNoise = false) (hback : AllBlank back)
    (hcloser : closer.isMark mark' = true) :
    significant (opener :: front ++ operand :: back ++ [closer]) = [operand] := by
  rw [List.cons_append, List.cons_append, significant_cons_of_isNoise (isNoise_of_isMark hopener),
    significant_append, significant_append, hfront.significant_eq, significant_cons hoperand,
    hback.significant_eq, significant_cons_of_isNoise (isNoise_of_isMark hcloser)]
  rfl

theorem significant_joined {mark : Mark} (hleft : left.isNoise = false) (hfront : AllBlank front)
    (hsign : sign.isMark mark = true) (hback : AllBlank back) (hright : right.isNoise = false) :
    significant (left :: front ++ sign :: back ++ [right]) = [left, right] := by
  rw [List.cons_append, List.cons_append, significant_cons hleft, significant_append,
    significant_append, hfront.significant_eq,
    significant_cons_of_isNoise (isNoise_of_isMark hsign), hback.significant_eq,
    significant_cons hright]
  rfl

theorem significant_signed {mark : Mark} (hsign : sign.isMark mark = true)
    (hfront : AllBlank front) (hoperand : operand.isNoise = false) :
    significant (sign :: front ++ [operand]) = [operand] := by
  rw [List.cons_append, significant_cons_of_isNoise (isNoise_of_isMark hsign), significant_append,
    hfront.significant_eq, significant_cons hoperand]
  rfl

theorem significant_marked {mark : Mark} (hoperand : operand.isNoise = false)
    (hsign : sign.isMark mark = true) : significant [operand, sign] = [operand] := by
  rw [significant_cons hoperand, significant_cons_of_isNoise (isNoise_of_isMark hsign)]
  rfl

theorem significant_call {name : Token} {mark mark' : Mark} {tokens arguments : List Token}
    (hname : name.isFunctionName = true) (hopener : opener.isMark mark = true)
    (hfront : AllBlank front) (htokens : significant tokens = arguments)
    (hcloser : closer.isMark mark' = true) :
    significant (name :: opener :: front ++ tokens ++ [closer]) = name :: arguments := by
  rw [List.cons_append, List.cons_append, List.cons_append, List.cons_append,
    significant_cons (isNoise_of_isFunctionName hname),
    significant_cons_of_isNoise (isNoise_of_isMark hopener), significant_append,
    significant_append, hfront.significant_eq, htokens,
    significant_cons_of_isNoise (isNoise_of_isMark hcloser), List.nil_append]
  exact congrArg (name :: ·) (List.append_nil _)

theorem significant_emptyCall {name : Token} {mark mark' : Mark}
    (hname : name.isFunctionName = true) (hopener : opener.isMark mark = true)
    (hfront : AllBlank front) (hcloser : closer.isMark mark' = true) :
    significant (name :: opener :: front ++ [closer]) = [name] := by
  have hsignificant : significant (name :: opener :: front ++ [] ++ [closer]) = _ :=
    significant_call hname hopener hfront rfl hcloser
  rwa [List.append_nil] at hsignificant

theorem significant_formula {mark : Mark} (hsign : sign.isMark mark = true)
    (hfront : AllBlank front) (hoperand : operand.isNoise = false) (hback : AllBlank back) :
    significant (sign :: front ++ operand :: back) = [operand] := by
  rw [List.cons_append, significant_cons_of_isNoise (isNoise_of_isMark hsign), significant_append,
    hfront.significant_eq, significant_cons hoperand, hback.significant_eq]
  rfl

/-! ### Shapes that bind

Groups, calls and leaves ask nothing of what they hold. For the others the
condition on the root is one on the priorities of the operands found above. -/

/-- **A group shields what is in it**: nothing is asked of how tightly that
binds. -/
theorem binds_group (hopener : opener.isMark .parenthesisOpen = true) (hfront : AllBlank front)
    (hoperand : operand.isNoise = false) (hback : AllBlank back)
    (hcloser : closer.isMark .parenthesisClose = true) :
    (Token.join .group (opener :: front ++ operand :: back ++ [closer])).Binds
      ↔ operand.Binds := by
  rw [binds_join, forall_binds_iff,
    significant_enclosed hopener hfront hoperand hback hcloser, List.forall_mem_singleton]
  exact and_iff_right trivial

/-- **A call shields its arguments**, like a group. -/
theorem binds_call {name : Token} {tokens arguments : List Token}
    (hname : name.isFunctionName = true) (hopener : opener.isMark .parenthesisOpen = true)
    (hfront : AllBlank front) (htokens : significant tokens = arguments)
    (hcloser : closer.isMark .parenthesisClose = true) :
    (Token.join .call (name :: opener :: front ++ tokens ++ [closer])).Binds
      ↔ ∀ argument ∈ arguments, argument.Binds := by
  obtain ⟨function, text, hleaf⟩ := exists_of_isFunctionName hname
  rw [binds_join, forall_binds_iff, significant_call hname hopener hfront htokens hcloser,
    List.forall_mem_cons, and_iff_right (show (Token.join .call _).Ordered from trivial),
    and_iff_right (hleaf ▸ binds_leaf _ _)]

/-- **Before a percent sign** there is something that binds as tightly. -/
theorem binds_percentage (hoperand : operand.isNoise = false)
    (hsign : sign.isMark .percent = true) :
    (Token.join .percentage [operand, sign]).Binds
      ↔ operand.Binds ∧ Expression.percentagePriority ≤ operand.priority := by
  have hordered : (Token.join .percentage [operand, sign]).Ordered
      ↔ Expression.percentagePriority ≤ operand.priority := by
    show (∀ other ∈ significant [operand, sign], _) ↔ _
    rw [significant_marked hoperand hsign, List.forall_mem_singleton, percentagePriority_le_iff]
  rw [binds_join, forall_binds_iff, significant_marked hoperand hsign, List.forall_mem_singleton,
    hordered, and_comm]

/-- **Behind a minus sign** there is something that binds as tightly. -/
theorem binds_negative (hsign : sign.isMark (.operator .subtraction) = true)
    (hfront : AllBlank front) (hoperand : operand.isNoise = false) :
    (Token.join .negative (sign :: front ++ [operand])).Binds
      ↔ operand.Binds ∧ Expression.negativePriority ≤ operand.priority := by
  have hordered : (Token.join .negative (sign :: front ++ [operand])).Ordered
      ↔ Expression.negativePriority ≤ operand.priority := by
    show (∀ other ∈ significant (sign :: front ++ [operand]), _) ↔ _
    rw [significant_signed hsign hfront hoperand, List.forall_mem_singleton,
      negativePriority_le_iff]
  rw [binds_join, forall_binds_iff, significant_signed hsign hfront hoperand,
    List.forall_mem_singleton, hordered, and_comm]

/-- **Around an operator** the left operand binds as tightly, and the right one
more tightly. -/
theorem binds_binary {operator : Operator} (hleft : left.isNoise = false)
    (hfront : AllBlank front) (hsign : sign.isMark (.operator operator) = true)
    (hback : AllBlank back) (hright : right.isNoise = false) :
    (Token.join (.binary operator) (left :: front ++ sign :: back ++ [right])).Binds
      ↔ (left.Binds ∧ right.Binds) ∧ operator.priority ≤ left.priority ∧
        operator.priority < right.priority := by
  have hmax := operator.priority_le_maxPriority
  have hordered : (Token.join (.binary operator) (left :: front ++ sign :: back ++ [right])).Ordered
      ↔ operator.priority ≤ left.priority ∧ operator.priority < right.priority := by
    rw [le_priority_iff (Nat.le_succ_of_le hmax), Nat.lt_iff_add_one_le,
      le_priority_iff (Nat.succ_le_succ hmax)]
    show (∃ a b, significant (left :: front ++ sign :: back ++ [right]) = [a, b] ∧ _) ↔ _
    rw [significant_joined hleft hfront hsign hback hright]
    constructor
    · rintro ⟨a, b, hoperands, h⟩
      obtain ⟨rfl, hb⟩ := List.cons.inj hoperands
      obtain ⟨rfl, -⟩ := List.cons.inj hb
      exact h
    · exact fun h => ⟨left, right, rfl, h⟩
  rw [binds_join, forall_binds_iff, significant_joined hleft hfront hsign hback hright,
    List.forall_mem_cons, List.forall_mem_singleton, hordered, and_comm]

theorem binds_range {first last : Token} (hfirst : first.isCell = true)
    (hsign : sign.isMark .between = true) (hlast : last.isCell = true) :
    (Token.join .range [first, sign, last]).Binds := by
  obtain ⟨target, text, rfl⟩ := exists_of_isCell hfirst
  obtain ⟨target', text', rfl⟩ := exists_of_isCell hlast
  refine binds_join.2 ⟨trivial, List.forall_mem_cons.2 ⟨binds_leaf _ _, ?_⟩⟩
  exact List.forall_mem_cons.2 ⟨binds_of_isNoise (isNoise_of_isMark hsign),
    List.forall_mem_singleton.2 (binds_leaf _ _)⟩

theorem binds_emptyCall {name : Token} (hname : name.isFunctionName = true)
    (hopener : opener.isMark .parenthesisOpen = true) (hfront : AllBlank front)
    (hcloser : closer.isMark .parenthesisClose = true) :
    (Token.join .call (name :: opener :: front ++ [closer])).Binds := by
  obtain ⟨function, text, rfl⟩ := exists_of_isFunctionName hname
  rw [binds_join, forall_binds_iff, significant_emptyCall hname hopener hfront hcloser,
    List.forall_mem_singleton]
  exact ⟨trivial, binds_leaf _ _⟩

/-- **A formula binds** when its expression does. -/
theorem binds_formula (hsign : sign.isMark (.operator .equal) = true) (hfront : AllBlank front)
    (hoperand : operand.isNoise = false) (hback : AllBlank back) :
    (Token.join .expression (sign :: front ++ operand :: back)).Binds ↔ operand.Binds := by
  rw [binds_join, forall_binds_iff, significant_formula hsign hfront hoperand hback,
    List.forall_mem_singleton]
  exact and_iff_right trivial

end Worksheet.Formula
