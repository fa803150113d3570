import Worksheet.Proofs.Formula.Scanning
import Worksheet.Proofs.Formula.Meaning

/-!
# The tree of an expression

An expression that is written as a formula stands for a tree: the one its text
is read into. `Expression.tree` gives that tree without any reading, with a
group wherever `Expression.render` puts parentheses, so that its text is what is
written (`Expression.Spellable.text_tree`) and it comes to the expression again
(`Expression.Spellable.expression?_tree`). The parentheses are enough: the tree
is shaped and binds (`Expression.Spellable.shaped_tree`,
`Expression.Spellable.binds_tree`).

Not every expression can be read back. `Expression.Spellable` says which can: a
number is finite and without a minus sign, which would be an operator; cells are
cells of the sheet; a range has more than one cell, since a single one is
written as a cell; a label does not read as a boolean; a function has a name.
Dates and times are written as numbers and words that mean something else, and
whole columns and rows cannot be written.
-/

namespace Worksheet.Formula

/-! ## Expressions that can be read back -/

namespace Expression

/-- **An expression that can be read back.** -/
inductive Spellable : Expression → Prop
  | number {value : Float} (hfinite : value.isFinite = true)
      (hsign : Number.isSigned value = false) : Spellable (.number value)
  | text (value : List Char) : Spellable (.text value)
  | boolean (value : Bool) : Spellable (.boolean value)
  | error (kind : CellErrorKind) : Spellable (.error kind)
  | cell {target : Cell} (hsheet : target.InSheet) : Spellable (.reference (.cell target))
  | range {a b : Cell} (ha : a.InSheet) (hb : b.InSheet)
      (hmany : (CellRange.spanning a b).isSingle = false) :
      Spellable (.reference (.range (.spanning a b)))
  | label {target : Label} (hboolean : Converter.boolean? target.text = none) :
      Spellable (.reference (.label target))
  | negative {operand : Expression} (h : Spellable operand) : Spellable (.negative operand)
  | percentage {operand : Expression} (h : Spellable operand) :
      Spellable (.percentage operand)
  | binary (operator : Operator) {left right : Expression} (hleft : Spellable left)
      (hright : Spellable right) : Spellable (.binary operator left right)
  | call {first : Char} {tail : List Char} {arguments : List Expression}
      (hname : IsName first tail)
      (harguments : ∀ argument ∈ arguments, Spellable argument) :
      Spellable (.call (first :: tail) arguments)

end Expression

/-! ## Their trees

The tree is given by recursion on the expression, next to the text. It has a
node for each node of the expression, a group for each pair of parentheses, and
a leaf for each mark that is written. -/

/-- A mark as a leaf, with the text it is written with. -/
def Mark.leaf (mark : Mark) : Token :=
  .leaf (.mark mark) mark.text

namespace Expression

/-- A tree, in parentheses if need be, as `Expression.enclose` does with texts. -/
def encloseTree (needed : Bool) (tree : Token) : Token :=
  if needed then
    .join .group [Mark.leaf .parenthesisOpen, tree, Mark.leaf .parenthesisClose]
  else tree

/-- The tree of a reference. Selections that no formula can have are given a
blank, which is no operand. -/
def referenceTree : Selection → Token
  | .cell target => .leaf (.cell target) target.text
  | .range target =>
    .join .range [.leaf (.cell target.first) target.first.text, Mark.leaf .between,
      .leaf (.cell target.last) target.last.text]
  | .label target => .leaf (.label target) target.text
  | selection => .leaf .blank selection.text

mutual

/-- **The tree an expression is written as**, by the cases of
`Expression.render`: wherever that puts parentheses there is a group. -/
def tree : Expression → Token
  | .number value => .leaf (.number value) (Number.plainText value)
  | .text value => .leaf (.text value) (renderText value)
  | .boolean value => .leaf (.boolean value) (Value.booleanText value)
  | .date value => .leaf (.date value) value.text
  | .dateTime value => .leaf (.dateTime value) (value.textWith ' ')
  | .time value => .leaf (.time value) value.text
  | .error kind => .leaf (.error kind) kind.text
  | .reference selection => referenceTree selection
  | .negative operand =>
    .join .negative [Mark.leaf (.operator .subtraction),
      encloseTree (operand.priority < negativePriority) operand.tree]
  | .percentage operand =>
    .join .percentage [encloseTree (operand.priority < percentagePriority) operand.tree,
      Mark.leaf .percent]
  | .binary operator left right =>
    .join (.binary operator) [encloseTree (left.priority < operator.priority) left.tree,
      Mark.leaf (.operator operator),
      encloseTree (right.priority ≤ operator.priority) right.tree]
  | .call name arguments =>
    .join .call (.leaf (.functionName name) name :: Mark.leaf .parenthesisOpen
      :: argumentTrees arguments ++ [Mark.leaf .parenthesisClose])

def argumentTrees : List Expression → List Token
  | [] => []
  | [argument] => [argument.tree]
  | argument :: arguments =>
    argument.tree :: Mark.leaf .separator :: argumentTrees arguments

end

theorem argumentTrees_cons {arguments : List Expression} (h : arguments ≠ [])
    (argument : Expression) :
    argumentTrees (argument :: arguments)
      = argument.tree :: Mark.leaf .separator :: argumentTrees arguments := by
  rw [argumentTrees]
  exact h

theorem renderArguments_cons {arguments : List Expression} (h : arguments ≠ [])
    (argument : Expression) :
    renderArguments (argument :: arguments)
      = argument.render ++ ',' :: renderArguments arguments := by
  rw [renderArguments]
  exact h

/-! ## The text of a tree

A node that is made by `Token.join` has the texts of its children, so it is
enough to compare the children with what `render` puts side by side. -/

theorem text_join (kind : ParentKind) (children : List Token) :
    (Token.join kind children).text = Token.joinedText children := rfl

theorem text_encloseTree (needed : Bool) (tree : Token) :
    (encloseTree needed tree).text = enclose needed tree.text := by
  cases needed with
  | false => rfl
  | true =>
    show Token.joinedText [_, tree, _] = '(' :: tree.text ++ [')']
    unfold Token.joinedText
    simp [Mark.leaf, Mark.text, Token.text]

theorem joinedText_cons (token : Token) (tokens : List Token) :
    Token.joinedText (token :: tokens) = token.text ++ Token.joinedText tokens := rfl

theorem joinedText_append (front back : List Token) :
    Token.joinedText (front ++ back) = Token.joinedText front ++ Token.joinedText back :=
  List.flatMap_append

theorem text_range {target : CellRange} (h : target.isSingle = false) :
    (referenceTree (.range target)).text = target.text := by
  show Token.joinedText [_, _, _] = _
  rw [CellRange.text, h, if_neg Bool.false_ne_true]
  simp [Token.joinedText, Mark.leaf, Mark.text, Token.text]

theorem joinedText_argumentTrees {arguments : List Expression}
    (h : ∀ argument ∈ arguments, argument.tree.text = argument.render) :
    Token.joinedText (argumentTrees arguments) = renderArguments arguments := by
  induction arguments with
  | nil => rfl
  | cons argument arguments ih =>
    have hrest := ih fun other hother => h other (List.mem_cons_of_mem _ hother)
    have hfirst := h argument List.mem_cons_self
    cases arguments with
    | nil =>
      rw [argumentTrees, renderArguments, joinedText_cons, hfirst]
      exact List.append_nil _
    | cons other arguments =>
      have hne : other :: arguments ≠ [] := List.cons_ne_nil _ _
      rw [argumentTrees_cons hne, renderArguments_cons hne, joinedText_cons, joinedText_cons,
        hrest, hfirst]
      rfl

/-- **The tree of an expression has the text that is written.** By induction on
the expression, one case for each kind of node. -/
theorem Spellable.text_tree {e : Expression} (h : e.Spellable) : e.tree.text = e.render := by
  induction h with
  | range ha hb hmany =>
    rw [tree, text_range hmany, render]
    rfl
  | negative h ih =>
    rw [tree, text_join, joinedText_cons, joinedText_cons, text_encloseTree, ih, render]
    exact congrArg ('-' :: ·) (List.append_nil _)
  | percentage h ih =>
    rw [tree, text_join, joinedText_cons, text_encloseTree, ih, render]
    rfl
  | binary operator hleft hright ihleft ihright =>
    rw [tree, text_join, joinedText_cons, joinedText_cons, joinedText_cons, text_encloseTree,
      text_encloseTree, ihleft, ihright, render, List.append_assoc]
    exact congrArg (_ ++ ·) (congrArg (_ ++ ·) (List.append_nil _))
  | call hname harguments ih =>
    rw [tree, text_join, joinedText_append, joinedText_cons, joinedText_cons,
      joinedText_argumentTrees ih, render]
    rfl
  | _ => rw [tree, render]; rfl

/-! ## The leaves of a tree -/

theorem leaves_markLeaf (mark : Mark) : mark.leaf.leaves = [mark.leaf] := rfl

theorem leaves_encloseTree (needed : Bool) (tree : Token) :
    (encloseTree needed tree).leaves
      = if needed then
          Mark.leaf .parenthesisOpen :: tree.leaves ++ [Mark.leaf .parenthesisClose]
        else tree.leaves := by
  cases needed with
  | false => rfl
  | true => exact Token.leaves_join _ _

/-! ## The shape of a tree

Shape and binding are shown by induction on `Spellable`. A part is put into
parentheses exactly when it binds less tightly than is asked for there, and
`le_priority_encloseTree` turns this into what the node asks for. -/

theorem isMark_markLeaf (mark : Mark) : mark.leaf.isMark mark = true :=
  beq_self_eq_true mark

theorem Spellable.priority_tree {e : Expression} (h : e.Spellable) :
    e.tree.priority = e.priority := by
  cases h <;> rfl

theorem Spellable.isNoise_tree {e : Expression} (h : e.Spellable) : e.tree.isNoise = false := by
  cases h <;> rfl

theorem isNoise_encloseTree {needed : Bool} {tree : Token} (h : tree.isNoise = false) :
    (encloseTree needed tree).isNoise = false := by
  cases needed with
  | false => exact h
  | true => rfl

theorem shaped_encloseTree (needed : Bool) {tree : Token} (h : Shaped tree) :
    Shaped (encloseTree needed tree) := by
  cases needed with
  | false => exact h
  | true =>
    exact Shaped.group (isMark_markLeaf .parenthesisOpen) allBlank_nil h allBlank_nil
      (isMark_markLeaf .parenthesisClose)

theorem binds_encloseTree (needed : Bool) {tree : Token} (hnoise : tree.isNoise = false)
    (h : tree.Binds) : (encloseTree needed tree).Binds := by
  cases needed with
  | false => exact h
  | true =>
    exact (binds_group (isMark_markLeaf .parenthesisOpen) allBlank_nil hnoise allBlank_nil
      (isMark_markLeaf .parenthesisClose)).2 h

/-- **In parentheses where need be, a tree binds as tightly as is asked.** A
group binds more tightly than anything, and without one `needed` says that the
tree does so already. -/
theorem le_priority_encloseTree {needed : Bool} {tree : Token} {least : Nat}
    (h : needed = false → least ≤ tree.priority) (hleast : least ≤ percentagePriority) :
    least ≤ (encloseTree needed tree).priority := by
  cases needed with
  | false => exact h rfl
  | true => exact Nat.le_succ_of_le hleast

theorem separated_argumentTrees {arguments : List Expression} (h : arguments ≠ []) :
    Separated (arguments.map tree) (argumentTrees arguments) := by
  induction arguments with
  | nil => exact absurd rfl h
  | cons argument arguments ih =>
    cases arguments with
    | nil => exact .last _ allBlank_nil
    | cons other arguments =>
      have hne : other :: arguments ≠ [] := List.cons_ne_nil _ _
      rw [argumentTrees_cons hne]
      exact .more _ allBlank_nil (isMark_markLeaf .separator) allBlank_nil (ih hne)

theorem significant_argumentTrees {arguments : List Expression} (h : arguments ≠ [])
    (harguments : ∀ argument ∈ arguments, argument.Spellable) :
    Token.significant (argumentTrees arguments) = arguments.map tree :=
  (separated_argumentTrees h).significant_eq
    (List.forall_mem_map.2 fun argument hargument => (harguments argument hargument).isNoise_tree)

/-- **The tree of an expression is shaped.** Each constructor of `Spellable` has
its own of `Shaped`. -/
theorem Spellable.shaped_tree {e : Expression} (h : e.Spellable) : Shaped e.tree := by
  induction h with
  | range ha hb hmany => exact .range rfl (isMark_markLeaf .between) rfl
  | negative h ih =>
    rw [tree]
    exact .negative (isMark_markLeaf _) allBlank_nil (shaped_encloseTree _ ih)
  | percentage h ih =>
    rw [tree]
    exact .percentage (shaped_encloseTree _ ih) (isMark_markLeaf .percent)
  | binary operator hleft hright ihleft ihright =>
    rw [tree]
    exact .binary (shaped_encloseTree _ ihleft) allBlank_nil (isMark_markLeaf _) allBlank_nil
      (shaped_encloseTree _ ihright)
  | @call first tail arguments hname harguments ih =>
    rw [tree]
    cases arguments with
    | nil =>
      exact .emptyCall rfl (isMark_markLeaf .parenthesisOpen) allBlank_nil
        (isMark_markLeaf .parenthesisClose)
    | cons argument arguments =>
      exact .call rfl (isMark_markLeaf .parenthesisOpen) allBlank_nil
        (separated_argumentTrees (List.cons_ne_nil _ _)) (List.forall_mem_map.2 ih)
        (isMark_markLeaf .parenthesisClose)
  | _ => exact .operand rfl

/-- **The tree of an expression binds**: there are parentheses wherever they are
needed. What `render` compares in order to set them is what the lemmas on nodes
ask for (`binds_binary`, `binds_negative`, `binds_percentage`). -/
theorem Spellable.binds_tree {e : Expression} (h : e.Spellable) : e.tree.Binds := by
  induction h with
  | range ha hb hmany => exact binds_range rfl (isMark_markLeaf .between) rfl
  | negative h ih =>
    rw [tree]
    -- parentheses stand where the operand's priority asks for them, so what
    -- stands bare binds tightly enough
    refine (binds_negative (isMark_markLeaf _) allBlank_nil
      (isNoise_encloseTree h.isNoise_tree)).2 ⟨binds_encloseTree _ h.isNoise_tree ih, ?_⟩
    refine le_priority_encloseTree (fun hneeded => ?_) (Nat.le_succ _)
    rw [h.priority_tree]
    exact Nat.not_lt.1 (of_decide_eq_false hneeded)
  | percentage h ih =>
    rw [tree]
    refine (binds_percentage (isNoise_encloseTree h.isNoise_tree)
      (isMark_markLeaf .percent)).2 ⟨binds_encloseTree _ h.isNoise_tree ih, ?_⟩
    refine le_priority_encloseTree (fun hneeded => ?_) (Nat.le_refl _)
    rw [h.priority_tree]
    exact Nat.not_lt.1 (of_decide_eq_false hneeded)
  | binary operator hleft hright ihleft ihright =>
    have hmax : operator.priority < percentagePriority :=
      Nat.lt_succ_of_le (Nat.le_succ_of_le operator.priority_le_maxPriority)
    rw [tree]
    refine (binds_binary (isNoise_encloseTree hleft.isNoise_tree) allBlank_nil
      (isMark_markLeaf _) allBlank_nil (isNoise_encloseTree hright.isNoise_tree)).2
      ⟨⟨binds_encloseTree _ hleft.isNoise_tree ihleft,
        binds_encloseTree _ hright.isNoise_tree ihright⟩, ?_, ?_⟩
    · refine le_priority_encloseTree (fun hneeded => ?_) (Nat.le_of_lt hmax)
      rw [hleft.priority_tree]
      exact Nat.not_lt.1 (of_decide_eq_false hneeded)
    · refine le_priority_encloseTree (fun hneeded => ?_) hmax
      rw [hright.priority_tree]
      exact Nat.not_le.1 (of_decide_eq_false hneeded)
  | @call first tail arguments hname harguments ih =>
    rw [tree]
    cases arguments with
    | nil =>
      exact binds_emptyCall rfl (isMark_markLeaf .parenthesisOpen) allBlank_nil
        (isMark_markLeaf .parenthesisClose)
    | cons argument arguments =>
      have hsignificant := significant_argumentTrees (List.cons_ne_nil _ _) harguments
      exact (binds_call rfl (isMark_markLeaf .parenthesisOpen) allBlank_nil hsignificant
        (isMark_markLeaf .parenthesisClose)).2 (List.forall_mem_map.2 ih)
  | _ => exact Token.binds_leaf _ _

/-! ## The expression of a tree

Marks and blanks stand for nothing, and a group stands for what is in it. So
the operands of a node are the trees of the operands of the expression. -/

/-- Parentheses do not change an expression. -/
theorem expression?_encloseTree (needed : Bool) {tree : Token} (h : tree.isNoise = false)
    {e : Expression} (he : tree.expression? = .ok e) :
    (encloseTree needed tree).expression? = .ok e := by
  cases needed with
  | false => exact he
  | true =>
    exact expression?_group (isMark_markLeaf .parenthesisOpen) allBlank_nil h allBlank_nil
      (isMark_markLeaf .parenthesisClose) he

theorem expressionsOf_trees {arguments : List Expression}
    (h : ∀ argument ∈ arguments, argument.tree.expression? = .ok argument) :
    expressionsOf ((arguments.map tree).map fun token => (token, token.expression?))
      = .ok arguments := by
  induction arguments with
  | nil => rfl
  | cons argument arguments ih =>
    rw [List.map_cons, List.map_cons, h argument List.mem_cons_self, expressionsOf,
      ih fun other hother => h other (List.mem_cons_of_mem _ hother)]
    rfl

/-- **The tree of an expression comes to the expression.** The nodes that stand
for something are the trees of its operands, and the rest of the children are
left out. -/
theorem Spellable.expression?_tree {e : Expression} (h : e.Spellable) :
    e.tree.expression? = .ok e := by
  induction h with
  | @range a b ha hb hmany =>
    rw [tree]
    refine (expression?_range _ _ (isMark_markLeaf .between)).trans ?_
    rw [CellRange.spanning_corners]
  | negative h ih =>
    rw [tree]
    exact expression?_negative (isMark_markLeaf _) allBlank_nil
      (isNoise_encloseTree h.isNoise_tree) (expression?_encloseTree _ h.isNoise_tree ih)
  | percentage h ih =>
    rw [tree]
    exact expression?_percentage (isNoise_encloseTree h.isNoise_tree) (isMark_markLeaf .percent)
      (expression?_encloseTree _ h.isNoise_tree ih)
  | binary operator hleft hright ihleft ihright =>
    rw [tree]
    exact expression?_binary (isNoise_encloseTree hleft.isNoise_tree) allBlank_nil
      (isMark_markLeaf _) allBlank_nil (isNoise_encloseTree hright.isNoise_tree)
      (expression?_encloseTree _ hleft.isNoise_tree ihleft)
      (expression?_encloseTree _ hright.isNoise_tree ihright)
  | @call first tail arguments hname harguments ih =>
    rw [tree]
    cases arguments with
    | nil =>
      exact expression?_emptyCall (isMark_markLeaf .parenthesisOpen) allBlank_nil
        (isMark_markLeaf .parenthesisClose)
    | cons argument arguments =>
      exact expression?_call (isMark_markLeaf .parenthesisOpen) allBlank_nil
        (significant_argumentTrees (List.cons_ne_nil _ _) harguments)
        (isMark_markLeaf .parenthesisClose) (expressionsOf_trees ih)
  | _ => rfl

end Expression

end Worksheet.Formula
