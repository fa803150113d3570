import Worksheet.Proofs.Formula.Literals
import Worksheet.Proofs.Formula.Rendering

/-!
# A rendered expression splits into the leaves of its tree

A formula is split into lexemes from left to right, and what comes next decides
where one ends. `Lexes` says of a text that it is split into given leaves at any
position, inside any open parentheses and before any rest that may follow, and
that the rest is then split as if it stood alone. Such texts can be put side by
side (`Lexes.append`), and in parentheses (`Lexes.enclose`), which open and
close again.

So it is enough to go through an expression once: each of its parts is split
into the leaves of its own tree, and ends where an operand may end
(`Expression.Spellable.lexes_render`).
-/

namespace Worksheet.Formula

/-! ## Texts that split into leaves

`Lexes` quantifies over everything that the scanner carries along: the
position, the open parentheses and the rest. This is what makes it possible to
put texts side by side without a word on where they stand. -/

/-- **A text splits into leaves** before any rest of a kind, at any position and
inside any open parentheses. The rest is then split as if it stood alone, so
texts can be put side by side. -/
def Lexes (tokens : List Token) (text : List Char) (follows : List Char → Prop) : Prop :=
  ∀ (position : Nat) (opened : List Nat) (rest : List Char), follows rest →
    ∃ lexemes : List Lexeme, lexemes.map Lexeme.token = tokens ∧
      lexemesFrom Reader.standard position opened (text ++ rest)
        = (lexemesFrom Reader.standard (position + Text.byteLength text) opened rest).map
            fun more => lexemes ++ more

/-- **The lexeme at the front.** What is scanned at the front of a text is its
first lexeme, if it closes no parenthesis that is not open. -/
theorem lexemesFrom_of_scans {kind : LeafKind} {text rest : List Char}
    (h : Scans kind text rest) (position : Nat) {opened opened' : List Nat}
    (hopened : openAfter? opened position kind = some opened') :
    lexemesFrom Reader.standard position opened (text ++ rest)
      = (lexemesFrom Reader.standard (position + Text.byteLength text) opened' rest).map
          fun more => ⟨kind, text, position⟩ :: more := by
  obtain ⟨first, tail, rfl, hscan⟩ := h
  have hbefore : Text.before (first :: (tail ++ rest)) rest = first :: tail :=
    Text.before_append (first :: tail) rest
  -- the scanner is matched on with a proof, which `rw` cannot reach
  rw [List.cons_append, lexemesFrom]
  split
  · rename_i fault heq
    rw [hscan] at heq
    cases heq
  · rename_i kind' after heq
    rw [hscan] at heq
    obtain ⟨rfl, rfl⟩ := Prod.mk.inj (Except.ok.inj heq)
    simp only [hopened, hbefore]
    cases lexemesFrom Reader.standard (position + Text.byteLength (first :: tail)) opened' rest
    · rfl
    · rfl

theorem lexes_leaf {kind : LeafKind} {text : List Char} {follows : List Char → Prop}
    (hopen : kind.isMark .parenthesisOpen = false)
    (hclose : kind.isMark .parenthesisClose = false)
    (h : ∀ rest, follows rest → Scans kind text rest) :
    Lexes [.leaf kind text] text follows := by
  intro position opened rest hrest
  refine ⟨[⟨kind, text, position⟩], rfl, ?_⟩
  have hopened : openAfter? opened position kind = some opened := by
    unfold openAfter?
    rw [hopen, hclose]
    rfl
  rw [lexemesFrom_of_scans (h rest hrest) position hopened]
  rfl

/-- **One text after the other**, if the second may follow the first. -/
theorem Lexes.append {front back : List Token} {text text' : List Char}
    {follows follows' : List Char → Prop} (h : Lexes front text follows)
    (h' : Lexes back text' follows')
    (hfollows : ∀ rest, follows' rest → follows (text' ++ rest)) :
    Lexes (front ++ back) (text ++ text') follows' := by
  intro position opened rest hrest
  obtain ⟨lexemes, hlexemes, heq⟩ := h position opened (text' ++ rest) (hfollows rest hrest)
  obtain ⟨lexemes', hlexemes', heq'⟩ :=
    h' (position + Text.byteLength text) opened rest hrest
  -- the position moves on by the bytes of the first text
  refine ⟨lexemes ++ lexemes', by rw [List.map_append, hlexemes, hlexemes'], ?_⟩
  rw [List.append_assoc, heq, heq', Text.byteLength_append, Nat.add_assoc]
  cases lexemesFrom Reader.standard _ opened rest with
  | error e => rfl
  | ok more => exact congrArg Except.ok (List.append_assoc _ _ _).symm

/-- **A text in parentheses**, after which anything may come: the parenthesis
that is opened is the one that is closed. -/
theorem Lexes.enclose {tokens : List Token} {text : List Char} (h : Lexes tokens text Closed)
    (follows : List Char → Prop) :
    Lexes (Mark.leaf .parenthesisOpen :: tokens ++ [Mark.leaf .parenthesisClose])
      ('(' :: text ++ [')']) follows := by
  intro position opened rest _
  have hopen : Scans (.mark .parenthesisOpen) ['('] (text ++ ')' :: rest) :=
    scans_mark .parenthesisOpen fun h => absurd h (by decide)
  have hclose : Scans (.mark .parenthesisClose) [')'] rest :=
    scans_mark .parenthesisClose fun h => absurd h (by decide)
  obtain ⟨lexemes, hlexemes, heq⟩ := h (position + Text.byteLength ['(']) (position :: opened)
    (')' :: rest) (closed_cons (by decide))
  -- the opening parenthesis is remembered until the closing one takes it off
  -- again
  have hopened : openAfter? opened position (.mark .parenthesisOpen)
      = some (position :: opened) := rfl
  have hclosed : openAfter? (position :: opened)
      (position + Text.byteLength ['('] + Text.byteLength text) (.mark .parenthesisClose)
      = some opened := rfl
  have hfirst := lexemesFrom_of_scans hopen position hopened
  have hlast := lexemesFrom_of_scans hclose _ hclosed
  have hlength : position + Text.byteLength ('(' :: text ++ [')'])
      = position + Text.byteLength ['('] + Text.byteLength text + Text.byteLength [')'] := by
    rw [Text.byteLength_append, Text.byteLength_cons]
    simp only [Text.byteLength_cons, Text.byteLength_nil]
    omega
  refine ⟨⟨.mark .parenthesisOpen, ['('], position⟩ :: lexemes ++
    [⟨.mark .parenthesisClose, [')'],
      position + Text.byteLength ['('] + Text.byteLength text⟩], ?_, ?_⟩
  · rw [List.map_append, List.map_cons, hlexemes]
    rfl
  · rw [List.singleton_append] at hlast
    have htext : '(' :: text ++ [')'] ++ rest = ['('] ++ (text ++ ')' :: rest) := by simp
    rw [hlength, htext, hfirst, heq, hlast]
    cases lexemesFrom Reader.standard _ opened rest with
    | error e => rfl
    | ok more => exact congrArg Except.ok (by simp)

namespace Expression

/-! ## How an operand starts

A mark such as a less sign goes on when an equals sign comes next. Behind an
operator there is always an operand, and no operand starts with a character
that would make another mark of it. -/

/-- A text that makes no other mark of the one before it, whatever follows. -/
def Starts (text : List Char) : Prop :=
  ∃ first tail, text = first :: tail ∧ first ≠ '=' ∧ first ≠ '>'

theorem Starts.apart {text : List Char} (h : Starts text) (rest : List Char) :
    Apart (text ++ rest) := by
  obtain ⟨first, tail, rfl, hequal, hgreater⟩ := h
  exact ⟨fun heq => hequal (Option.some.inj heq), fun heq => hgreater (Option.some.inj heq)⟩

theorem Starts.append {text : List Char} (h : Starts text) (rest : List Char) :
    Starts (text ++ rest) := by
  obtain ⟨first, tail, rfl, hne⟩ := h
  exact ⟨first, tail ++ rest, rfl, hne⟩

theorem Starts.enclose {text : List Char} (h : Starts text) (needed : Bool) :
    Starts (enclose needed text) := by
  cases needed with
  | false => exact h
  | true => exact ⟨'(', text ++ [')'], rfl, by decide, by decide⟩

theorem starts_of_isStart {first : Char} {tail : List Char}
    (h : first = '$' ∨ Label.isStart first = true) : Starts (first :: tail) := by
  refine ⟨first, tail, rfl, ?_, ?_⟩ <;>
  · rintro rfl
    exact absurd h (by decide)

/-- **An expression starts like an operand**, by induction down its left side. -/
theorem Spellable.starts_render {e : Expression} (h : e.Spellable) : Starts e.render := by
  induction h with
  | number hfinite hsign =>
    -- no sign is printed, so the text starts with the first digit
    obtain ⟨whole, fraction, htext, hdigits, -⟩ := Number.plainText_eq hfinite hsign
    obtain ⟨first, tail, hpointed, hfirst⟩ := hdigits.pointed_eq_cons
    rw [render, htext, hpointed]
    refine ⟨first, tail, rfl, ?_, ?_⟩ <;>
    · rintro rfl
      exact absurd hfirst (by decide)
  | text value => exact ⟨'"', _, rfl, by decide, by decide⟩
  | boolean value =>
    cases value
    · exact ⟨'F', _, rfl, by decide, by decide⟩
    · exact ⟨'T', _, rfl, by decide, by decide⟩
  | error kind => cases kind <;> exact ⟨'#', _, rfl, by decide, by decide⟩
  | @cell target hsheet =>
    obtain ⟨first, tail, htext, hfirst⟩ := target.text_eq_cons
    rw [render, Selection.text, htext]
    exact starts_of_isStart (hfirst.imp_right fun halpha => by simp [Label.isStart, halpha])
  | @range a b ha hb hmany =>
    obtain ⟨first, tail, htext, hfirst⟩ := (CellRange.spanning a b).first.text_eq_cons
    rw [render, Selection.text, CellRange.text, hmany, if_neg Bool.false_ne_true, htext]
    exact Starts.append (starts_of_isStart
      (hfirst.imp_right fun halpha => by simp [Label.isStart, halpha])) _
  | @label target hboolean =>
    obtain ⟨first, tail, htext, hname, -⟩ := isName_of_valid target.valid
    rw [render, Selection.text, htext]
    exact starts_of_isStart (Or.inr hname.start)
  | negative h ih => exact ⟨'-', _, rfl, by decide, by decide⟩
  | percentage h ih =>
    rw [render]
    exact (ih.enclose _).append _
  | binary operator hleft hright ihleft ihright =>
    rw [render, List.append_assoc]
    exact (ihleft.enclose _).append _
  | call hname harguments ih =>
    rw [render]
    exact ((starts_of_isStart (Or.inr hname.start)).append _).append _

/-! ## The lexemes of an expression

What an expression is rendered as is split at the places where its parts meet.
It is closed at the end, so that an operator or a parenthesis may follow with
nothing between. -/

theorem lexes_mark {mark : Mark} (hopen : mark ≠ .parenthesisOpen)
    (hclose : mark ≠ .parenthesisClose) {follows : List Char → Prop}
    (h : ∀ rest, follows rest → mark.IsOpen → Apart rest) :
    Lexes [mark.leaf] mark.text follows :=
  lexes_leaf (beq_eq_false_iff_ne.2 hopen) (beq_eq_false_iff_ne.2 hclose)
    fun rest hrest => scans_mark mark (h rest hrest)

theorem lexes_plainMark {mark : Mark} (hopen : mark ≠ .parenthesisOpen)
    (hclose : mark ≠ .parenthesisClose) (hplain : ¬mark.IsOpen) :
    Lexes [mark.leaf] mark.text fun _ => True :=
  lexes_mark hopen hclose fun _ _ h => absurd h hplain

theorem lexes_enclose {tree : Token} {text : List Char} (h : Lexes tree.leaves text Closed)
    (needed : Bool) :
    Lexes (encloseTree needed tree).leaves (enclose needed text) Closed := by
  rw [leaves_encloseTree]
  cases needed with
  | false => exact h
  | true => exact h.enclose Closed

/-- Arguments with commas between them. -/
theorem lexes_arguments {arguments : List Expression}
    (hspell : ∀ argument ∈ arguments, argument.Spellable)
    (h : ∀ argument ∈ arguments, Lexes argument.tree.leaves argument.render Closed) :
    Lexes ((argumentTrees arguments).flatMap Token.leaves) (renderArguments arguments)
      Closed := by
  induction arguments with
  | nil =>
    intro position opened rest _
    refine ⟨[], rfl, ?_⟩
    show lexemesFrom Reader.standard position opened rest
      = (lexemesFrom Reader.standard position opened rest).map fun more => more
    cases lexemesFrom Reader.standard position opened rest <;> rfl
  | cons argument arguments ih =>
    have hfirst := h argument List.mem_cons_self
    have hspell' : ∀ other ∈ arguments, other.Spellable :=
      fun other hother => hspell other (List.mem_cons_of_mem _ hother)
    have hrest := ih hspell' fun other hother => h other (List.mem_cons_of_mem _ hother)
    cases arguments with
    | nil =>
      rw [argumentTrees, renderArguments, List.flatMap_cons, List.flatMap_nil, List.append_nil]
      exact hfirst
    | cons other arguments =>
      have hcomma : Lexes [Mark.leaf .separator] [','] fun _ => True :=
        lexes_plainMark (by decide) (by decide) (by decide)
      have hne : other :: arguments ≠ [] := List.cons_ne_nil _ _
      rw [argumentTrees_cons hne, renderArguments_cons hne, List.flatMap_cons,
        List.flatMap_cons]
      exact hfirst.append (hcomma.append hrest fun _ _ => trivial)
        fun rest _ => closed_cons (by decide)

/-- Two cells around a colon, whether they are one cell or two. -/
theorem lexes_range {first last : Cell} (hfirst : first.InSheet) (hlast : last.InSheet) :
    Lexes (referenceTree (.range ⟨first, last⟩)).leaves (first.text ++ ':' :: last.text)
      Closed := by
  have hcolon : Lexes [Mark.leaf .between] [':'] fun _ => True :=
    lexes_plainMark (by decide) (by decide) (by decide)
  have hcells : ∀ {cell : Cell}, cell.InSheet →
      Lexes [.leaf (.cell cell) cell.text] cell.text Closed :=
    fun hcell => lexes_leaf rfl rfl fun _ => scans_cell hcell
  rw [referenceTree, Token.leaves_join]
  exact (hcells hfirst).append (hcolon.append (hcells hlast) fun _ _ => trivial)
    fun rest _ => closed_cons (by decide)

/-- The sign of an operator may stand right after an operand. -/
theorem closed_operator (operator : Operator) (rest : List Char) :
    Closed (operator.text ++ rest) := by
  cases operator <;> exact closed_cons (by decide)

/-- **An expression splits into the leaves of its tree**, wherever an operand
may end. By induction on the expression; each case puts the texts of its parts
side by side with `Lexes.append`. -/
theorem Spellable.lexes_render {e : Expression} (h : e.Spellable) :
    Lexes e.tree.leaves e.render Closed := by
  induction h with
  | number hfinite hsign => exact lexes_leaf rfl rfl fun _ => scans_number hfinite hsign
  | text value => exact lexes_leaf rfl rfl fun _ => scans_text value
  | boolean value => exact lexes_leaf rfl rfl fun _ => scans_boolean value
  | error kind => exact lexes_leaf rfl rfl fun rest _ => scans_error kind rest
  | cell hsheet => exact lexes_leaf rfl rfl fun _ => scans_cell hsheet
  | @range a b ha hb hmany =>
    obtain ⟨hfirst, hlast⟩ := CellRange.inSheet_spanning ha hb
    rw [tree, render, Selection.text, CellRange.text, hmany, if_neg Bool.false_ne_true]
    exact lexes_range hfirst hlast
  | label hboolean => exact lexes_leaf rfl rfl fun _ => scans_label hboolean
  | negative h ih =>
    have hminus : Lexes [Mark.leaf (.operator .subtraction)] ['-'] fun _ => True :=
      lexes_plainMark (by decide) (by decide) (by decide)
    rw [tree, Token.leaves_join, render, List.flatMap_cons, List.flatMap_singleton]
    exact hminus.append (lexes_enclose ih _) fun _ _ => trivial
  | percentage h ih =>
    have hpercent : Lexes [Mark.leaf .percent] ['%'] fun _ => True :=
      lexes_plainMark (by decide) (by decide) (by decide)
    rw [tree, Token.leaves_join, render, List.flatMap_cons, List.flatMap_singleton]
    exact (lexes_enclose ih _).append (fun position opened rest _ =>
      hpercent position opened rest trivial) fun rest _ => closed_cons (by decide)
  | binary operator hleft hright ihleft ihright =>
    -- the right operand keeps the sign of the operator apart
    have hsign : Lexes [Mark.leaf (.operator operator)] operator.text
        fun rest => Apart rest :=
      lexes_mark Mark.noConfusion Mark.noConfusion fun _ hrest _ => hrest
    rw [tree, Token.leaves_join, render, List.flatMap_cons, List.flatMap_cons,
      List.flatMap_singleton, List.append_assoc]
    exact (lexes_enclose ihleft _).append
      (hsign.append (lexes_enclose ihright _)
        fun rest _ => (hright.starts_render.enclose _).apart rest)
      fun rest _ => (List.append_assoc _ _ rest) ▸ closed_operator operator _
  | @call first tail arguments hname harguments ih =>
    have hfunction : Lexes [.leaf (.functionName (first :: tail)) (first :: tail)]
        (first :: tail) fun rest => ∃ more, rest = '(' :: more := by
      refine lexes_leaf rfl rfl ?_
      rintro rest ⟨more, rfl⟩
      exact scans_functionName hname more
    rw [tree, Token.leaves_join, render]
    have htext : first :: tail ++ '(' :: renderArguments arguments ++ [')']
        = (first :: tail) ++ ('(' :: renderArguments arguments ++ [')']) := by simp
    have hleaves : (Token.leaf (.functionName (first :: tail)) (first :: tail)
          :: Mark.leaf .parenthesisOpen :: argumentTrees arguments
            ++ [Mark.leaf .parenthesisClose]).flatMap Token.leaves
        = [Token.leaf (.functionName (first :: tail)) (first :: tail)]
            ++ (Mark.leaf .parenthesisOpen :: (argumentTrees arguments).flatMap Token.leaves
              ++ [Mark.leaf .parenthesisClose]) := by
      simp [List.flatMap_append, leaves_markLeaf, Token.leaves]
    rw [htext, hleaves]
    exact hfunction.append ((lexes_arguments harguments ih).enclose Closed)
      fun rest _ => ⟨_, rfl⟩

end Expression

end Worksheet.Formula
