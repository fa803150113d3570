import Worksheet.Proofs.Formula.Legible
import Worksheet.Proofs.Formula.Reading
import Worksheet.Proofs.Formula.RoundTrip

/-!
# What is read from a formula that was read

A formula is read, its expression is written as a formula, and that is read
again. The second formula is always read, and its expression is the first one
but for two kinds of operands (`ofFormula?_reread`): a range of one cell is
written like a cell and comes back as one, and a number too large for every
double is written `inf` and comes back as a label. Without them nothing changes,
with them something does (`Expression.isFaithful`). Both do come up: the formula
of a cell twice, as `=A1:A1`, is lost (`lost_range`), and `=1E400` has an
infinite number (`ofFormula?_infinite`).

Which expressions come up at all is a matter of the leaves:
`Expression.Readable` holds of the expression of every formula that is read
(`exists_readable_of_ofFormula?`), and what a readable expression is read back
as can be read back itself (`Expression.Readable.spellable_reread`) and is
written alike (`Expression.Readable.render_reread`).
-/

namespace Worksheet.Formula

namespace Expression

/-! ## Expressions that formulas come to

`Readable` is wider than `Spellable` by just two operands. Both are written
like another operand, a label and a cell, and `reread` puts these in their
places. -/

/-- **An expression that a formula comes to.** Unlike one that can be read back
(`Spellable`) it may have infinite numbers and ranges of one cell. -/
inductive Readable : Expression → Prop
  | number {value : Float} (hsize : Number.IsSize value) : Readable (.number value)
  | text (value : List Char) : Readable (.text value)
  | boolean (value : Bool) : Readable (.boolean value)
  | error (kind : CellErrorKind) : Readable (.error kind)
  | cell {target : Cell} (hsheet : target.InSheet) : Readable (.reference (.cell target))
  | range {a b : Cell} (ha : a.InSheet) (hb : b.InSheet) :
      Readable (.reference (.range (.spanning a b)))
  | label {target : Label} (hboolean : Converter.boolean? target.text = none) :
      Readable (.reference (.label target))
  | negative {operand : Expression} (h : Readable operand) : Readable (.negative operand)
  | percentage {operand : Expression} (h : Readable operand) : Readable (.percentage operand)
  | binary (operator : Operator) {left right : Expression} (hleft : Readable left)
      (hright : Readable right) : Readable (.binary operator left right)
  | call {first : Char} {tail : List Char} {arguments : List Expression}
      (hname : IsName first tail)
      (harguments : ∀ argument ∈ arguments, Readable argument) :
      Readable (.call (first :: tail) arguments)

/-- The label that an infinite number is written like, as `inf` is a name. -/
def infLabel : Label :=
  ⟨['i', 'n', 'f'], by decide⟩

mutual

/-- **The expression that is read back** for an expression that was written. It
has a label for each infinite number and a cell for each range of one cell. -/
def reread : Expression → Expression
  | .number value => if value.isFinite then .number value else .reference (.label infLabel)
  | .reference (.range target) =>
    .reference (if target.isSingle then .cell target.first else .range target)
  | .negative operand => .negative operand.reread
  | .percentage operand => .percentage operand.reread
  | .binary operator left right => .binary operator left.reread right.reread
  | .call name arguments => .call name (rereadAll arguments)
  | e => e

def rereadAll : List Expression → List Expression
  | [] => []
  | e :: es => e.reread :: rereadAll es

end

mutual

/-- **Whether an expression is written faithfully**: it has no infinite number
and no range of one cell. -/
def isFaithful : Expression → Bool
  | .number value => value.isFinite
  | .reference (.range target) => !target.isSingle
  | .negative operand => operand.isFaithful
  | .percentage operand => operand.isFaithful
  | .binary _ left right => left.isFaithful && right.isFaithful
  | .call _ arguments => areFaithful arguments
  | _ => true

def areFaithful : List Expression → Bool
  | [] => true
  | e :: es => e.isFaithful && areFaithful es

end

theorem rereadAll_eq (expressions : List Expression) :
    rereadAll expressions = expressions.map reread := by
  induction expressions with
  | nil => rfl
  | cons e es ih => rw [rereadAll, ih, List.map_cons]

theorem areFaithful_eq (expressions : List Expression) :
    areFaithful expressions = expressions.all isFaithful := by
  induction expressions with
  | nil => rfl
  | cons e es ih => rw [areFaithful, ih, List.all_cons]

/-! ## Writing what is read back

What is written does not change when an operand is replaced by one that is
written like it, so the text of an expression is also that of one that can be
read back. -/

/-- What is read back binds as tightly: only operands by themselves are
replaced, and by such. So it is written with parentheses in the same places. -/
theorem priority_reread (e : Expression) : e.reread.priority = e.priority := by
  cases e with
  | number value =>
    rw [reread]
    split <;> rfl
  | reference selection => cases selection <;> rfl
  | _ => rfl

theorem renderArguments_map {arguments : List Expression}
    (h : ∀ argument ∈ arguments, argument.reread.render = argument.render) :
    renderArguments (arguments.map reread) = renderArguments arguments := by
  induction arguments with
  | nil => rfl
  | cons argument arguments ih =>
    have hfirst := h argument List.mem_cons_self
    have hrest := ih fun other hother => h other (List.mem_cons_of_mem _ hother)
    cases arguments with
    | nil => exact hfirst
    | cons other arguments =>
      rw [renderArguments_cons (List.cons_ne_nil other arguments), ← hrest, ← hfirst]
      rfl

/-- **What is read back is written alike**, by induction on the expression. -/
theorem Readable.render_reread {e : Expression} (h : e.Readable) :
    e.reread.render = e.render := by
  induction h with
  | @number value hsize =>
    rcases hsize.finite_or with hfinite | rfl
    · rw [reread, if_pos hfinite]
    · rw [reread, Number.isFinite_infinite, if_neg Bool.false_ne_true, render, render,
        Number.plainText_infinite]
      rfl
  | @range a b ha hb =>
    rw [reread]
    split
    · rename_i hsingle
      rw [render, render, Selection.text, Selection.text, CellRange.text, if_pos hsingle]
    · rfl
  | negative h ih => rw [reread, render, render, ih, priority_reread]
  | percentage h ih => rw [reread, render, render, ih, priority_reread]
  | binary operator hleft hright ihleft ihright =>
    rw [reread, render, render, ihleft, ihright, priority_reread, priority_reread]
  | call hname harguments ih =>
    rw [reread, render, render, rereadAll_eq, renderArguments_map ih]
  | _ => rfl

/-- **What is read back can be read back.** Both kinds of operands that are no
`Spellable` ones are replaced by such. -/
theorem Readable.spellable_reread {e : Expression} (h : e.Readable) : e.reread.Spellable := by
  induction h with
  | @number value hsize =>
    rw [reread]
    split
    · rename_i hfinite
      exact .number hfinite hsize.isSigned
    · exact .label (by decide)
  | text value => exact .text value
  | boolean value => exact .boolean value
  | error kind => exact .error kind
  | cell hsheet => exact .cell hsheet
  | @range a b ha hb =>
    rw [reread]
    split
    · exact .cell (CellRange.inSheet_spanning ha hb).1
    · rename_i hmany
      exact .range ha hb (Bool.eq_false_iff.2 hmany)
  | label hboolean => exact .label hboolean
  | negative h ih => exact .negative ih
  | percentage h ih => exact .percentage ih
  | binary operator hleft hright ihleft ihright => exact .binary operator ihleft ihright
  | call hname harguments ih =>
    rw [reread, rereadAll_eq]
    exact .call hname (List.forall_mem_map.2 ih)

/-! ## What changes

The comparison of expressions is a function that runs, and it is not reflexive
on NaN. Both directions are therefore shown of `==` itself. -/

/-- **What is written faithfully is read back as it is**: neither of the two
cases of `reread` that replace something comes up. -/
theorem Readable.reread_eq {e : Expression} (h : e.Readable) (hfaithful : e.isFaithful = true) :
    e.reread = e := by
  induction h with
  | number hsize =>
    rw [isFaithful] at hfaithful
    rw [reread, if_pos hfaithful]
  | range ha hb =>
    have hmany := Bool.eq_false_iff.1 (Bool.not_eq_true' _ ▸ hfaithful)
    rw [reread, if_neg hmany]
  | negative h ih => rw [reread, ih hfaithful]
  | percentage h ih => rw [reread, ih hfaithful]
  | binary operator hleft hright ihleft ihright =>
    obtain ⟨hfirst, hsecond⟩ := Bool.and_eq_true_iff.1 hfaithful
    rw [reread, ihleft hfirst, ihright hsecond]
  | @call first tail arguments hname harguments ih =>
    rw [isFaithful, areFaithful_eq] at hfaithful
    have hall := List.all_eq_true.1 hfaithful
    rw [reread, rereadAll_eq, List.map_congr_left fun argument hargument =>
      ih argument hargument (hall argument hargument), List.map_id']
  | _ => rfl

theorem beqAll_map_reread {expressions : List Expression}
    (h : ∀ e ∈ expressions, e.isFaithful = false → (e.reread == e) = false)
    (hunfaithful : expressions.all isFaithful = false) :
    Expression.beqAll (expressions.map reread) expressions = false := by
  induction expressions with
  | nil => cases hunfaithful
  | cons e es ih =>
    rw [List.map_cons, Expression.beqAll, Bool.and_eq_false_iff]
    rw [List.all_cons, Bool.and_eq_false_iff] at hunfaithful
    refine hunfaithful.imp (h e List.mem_cons_self) ?_
    exact ih fun other hother => h other (List.mem_cons_of_mem _ hother)

/-- **What is not written faithfully is read back as something else.** The
comparison of expressions tells a label from a number and a cell from a range,
and finds the difference below any node. -/
theorem Readable.beq_reread {e : Expression} (h : e.Readable) (hunfaithful : e.isFaithful = false) :
    (e.reread == e) = false := by
  show Expression.beq _ _ = false
  induction h with
  | number hsize =>
    rw [isFaithful] at hunfaithful
    rw [reread, hunfaithful]
    rfl
  | range ha hb =>
    rw [isFaithful, Bool.not_eq_false'] at hunfaithful
    rw [reread, if_pos hunfaithful]
    rfl
  | negative h ih => exact ih hunfaithful
  | percentage h ih => exact ih hunfaithful
  | binary operator hleft hright ihleft ihright =>
    rw [reread, Expression.beq, Bool.and_assoc, Bool.and_eq_false_iff, Bool.and_eq_false_iff]
    rw [isFaithful, Bool.and_eq_false_iff] at hunfaithful
    exact Or.inr (hunfaithful.imp ihleft ihright)
  | call hname harguments ih =>
    rw [isFaithful, areFaithful_eq] at hunfaithful
    rw [reread, rereadAll_eq, Expression.beq, beqAll_map_reread ih hunfaithful, Bool.and_false]
  | _ => cases hunfaithful

end Expression

/-! ## The expression of a formula -/

/-- **A tree with legible leaves**, as the trees of formulas are. -/
def Token.Legible (tree : Token) : Prop :=
  ∀ kind text, .leaf kind text ∈ tree.leaves → kind.Legible

/-- What legible leaves are built up to is readable. It is the instance of
`Inherited` that carries the property up to the expression of a tree. -/
theorem Expression.inherited_readable : Inherited LeafKind.Legible Readable where
  operand {kind _ e} hoperand hkind h := by
    cases kind with
    | number value => exact Except.ok.inj h ▸ .number hkind
    | text value => exact Except.ok.inj h ▸ .text value
    | boolean value => exact Except.ok.inj h ▸ .boolean value
    | error kind => exact Except.ok.inj h ▸ .error kind
    | cell target => exact Except.ok.inj h ▸ .cell hkind
    | label target => exact Except.ok.inj h ▸ .label hkind
    | _ => cases hoperand
  range := .range
  negative := .negative
  percentage := .percentage
  binary := .binary
  call hname h := by
    obtain ⟨first, tail, rfl, hfunction⟩ := hname
    exact .call hfunction h

/-- **A formula that is read comes to a readable expression.** -/
theorem exists_readable_of_ofFormula? {text : List Char} {token : Token}
    (h : Token.ofFormula? Reader.standard text = .ok token) :
    ∃ e, token.expression? = .ok e ∧ e.Readable := by
  obtain ⟨input, hinput, hshaped, -, hleaves⟩ := ofFormula?_eq_ok_iff.1 h
  have hlegible : token.Legible := by
    intro kind text hleaf
    rw [← hleaves] at hleaf
    obtain ⟨lexeme, hlexeme, heq⟩ := List.mem_map.1 hleaf
    obtain ⟨rfl, -⟩ := Token.leaf.inj heq
    exact legible_of_lexemes hinput lexeme hlexeme
  exact hshaped.exists_expression Expression.inherited_readable hlegible

/-- **The expression of a formula is read back**, with its one-cell ranges as
cells and its infinite numbers as labels, so it is the same when it has none of
them and another one when it has. -/
theorem ofFormula?_reread {text : List Char} {token : Token}
    (h : Token.ofFormula? Reader.standard text = .ok token) :
    ∃ e again, token.expression? = .ok e ∧
      Token.ofFormula? Reader.standard ('=' :: e.render) = .ok again ∧
      again.expression? = .ok e.reread ∧
      (e.isFaithful = true → e.reread = e) ∧ (e.isFaithful = false → (e.reread == e) = false) := by
  obtain ⟨e, he, hreadable⟩ := exists_readable_of_ofFormula? h
  have hspell := hreadable.spellable_reread
  have hagain := hspell.ofFormula?_eq
  rw [hreadable.render_reread] at hagain
  exact ⟨e, _, he, hagain, hspell.expression?_formulaTree, hreadable.reread_eq,
    hreadable.beq_reread⟩

/-! ## What is lost

Two operands are lost, and this is shown by one formula for each: the first
cell as a range, and a literal that is too large. -/

/-- **Two cells around a colon are read as a range**, whether they are one cell
or two. -/
theorem ofFormula?_range {first last : Cell} (hfirst : first.InSheet) (hlast : last.InSheet) :
    Token.ofFormula? Reader.standard ('=' :: (first.text ++ ':' :: last.text))
      = .ok (Expression.Spellable.formulaTree (.reference (.range ⟨first, last⟩))) := by
  have hcolon := Expression.isMark_markLeaf .between
  exact ofFormula?_of_lexes (Expression.lexes_range hfirst hlast) closed_nil
    (.range rfl hcolon rfl) (binds_range rfl hcolon rfl)

/-- The first cell of a sheet. -/
def firstCell : Cell :=
  ⟨⟨0, .relative⟩, ⟨0, .relative⟩⟩

theorem inSheet_firstCell : firstCell.InSheet :=
  ⟨by decide, by decide⟩

theorem ofFormula?_oneCell :
    Token.ofFormula? Reader.standard "=A1:A1".toList
      = .ok (Expression.Spellable.formulaTree (.reference (.range ⟨firstCell, firstCell⟩))) := by
  have htext : '=' :: (firstCell.text ++ ':' :: firstCell.text) = "=A1:A1".toList := by
    decide +kernel
  rw [← htext]
  exact ofFormula?_range inSheet_firstCell inSheet_firstCell

theorem reread_oneCell :
    let text := "=A1:A1".toList
    ∃ token, Token.ofFormula? Reader.standard text = .ok token ∧
      ∃ e again, token.expression? = .ok e ∧
        Token.ofFormula? Reader.standard ('=' :: e.render) = .ok again ∧
        again.expression? = .ok e.reread ∧
        (e.isFaithful = true → e.reread = e) ∧
        (e.isFaithful = false → (e.reread == e) = false) :=
  ⟨_, ofFormula?_oneCell, ofFormula?_reread ofFormula?_oneCell⟩

/-- **A formula is lost** when its expression is written as a formula that is
read back as another one. -/
def Lost (text written : List Char) : Prop :=
  ∃ token e again e', Token.ofFormula? Reader.standard text = .ok token ∧
    token.expression? = .ok e ∧ '=' :: e.render = written ∧
    Token.ofFormula? Reader.standard ('=' :: e.render) = .ok again ∧
    again.expression? = .ok e' ∧ (e' == e) = false

/-- **A range of one cell is lost**: it is written like the cell and read back
as one. -/
theorem lost_range {target : Cell} (h : target.InSheet) :
    Lost ('=' :: (target.text ++ ':' :: target.text)) ('=' :: target.toRelative.text) := by
  have hspan : CellRange.spanning target target = ⟨target.toRelative, target.toRelative⟩ :=
    CellRange.spanning_of_le (Nat.le_refl _) (Nat.le_refl _)
  have hexpression : (Expression.Spellable.formulaTree
      (.reference (.range ⟨target, target⟩))).expression?
        = .ok (.reference (.range (.spanning target target))) :=
    expression?_formula (Expression.isMark_markLeaf (.operator .equal)) allBlank_nil rfl
      allBlank_nil (expression?_range _ _ (Expression.isMark_markLeaf .between))
  have hrender : (Expression.reference (.range (.spanning target target))).render
      = target.toRelative.text := by
    rw [Expression.render, Selection.text, hspan]
    exact if_pos (beq_self_eq_true target.toRelative)
  have hspell : (Expression.reference (.cell target.toRelative)).Spellable :=
    .cell ⟨h.column, h.row⟩
  refine ⟨_, _, _, _, ofFormula?_range h h, hexpression, congrArg _ hrender, ?_,
    hspell.expression?_formulaTree, rfl⟩
  rw [hrender]
  exact hspell.ofFormula?_eq

/-- The first cell as a range, `=A1:A1`, comes back as `=A1`. -/
theorem lost_oneCell : Lost "=A1:A1".toList "=A1".toList := by
  have hlost := lost_range inSheet_firstCell
  have htext : '=' :: (firstCell.text ++ ':' :: firstCell.text) = "=A1:A1".toList := by
    decide +kernel
  have hwritten : '=' :: firstCell.toRelative.text = "=A1".toList := by decide +kernel
  rwa [htext, hwritten] at hlost

theorem scans_infinite : Scans (.number Number.infinite) ['1', 'E', '4', '0', '0'] [] := by
  have hread : Read.numeralReader.readFront? .standard .expression ['1', 'E', '4', '0', '0']
      = some (Number.infinite, []) := by decide +kernel
  refine scans_of_readNumber? (by decide) ?_
  rw [List.append_nil, Reader.readNumber?_standard, hread]

theorem ofFormula?_infinite :
    Token.ofFormula? Reader.standard "=1E400".toList = .ok (.join .expression
      [Mark.leaf (.operator .equal),
        .leaf (.number Number.infinite) ['1', 'E', '4', '0', '0']]) := by
  have hlexes : Lexes [.leaf (.number Number.infinite) ['1', 'E', '4', '0', '0']]
      ['1', 'E', '4', '0', '0'] fun rest => rest = [] := by
    refine lexes_leaf rfl rfl ?_
    rintro _ rfl
    exact scans_infinite
  exact ofFormula?_of_lexes hlexes rfl (.operand rfl) (Token.binds_leaf _ _)

end Worksheet.Formula
