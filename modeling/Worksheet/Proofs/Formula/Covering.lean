import Worksheet.Proofs.Formula.Reading
import Worksheet.Proofs.Formula.Remainder
import Worksheet.Proofs.Formula.RoundTrip

/-!
# Lexemes cover the text

Lexemes cover a text when nothing of it is left out and nothing is made up: no
lexeme is empty, their texts joined are the text, each starts behind the bytes
of those before it, and the parentheses among them are balanced (`Covers`). This
holds of the lexemes of any text, whatever the settings they are read with
(`covers_of_lexemes`).

The scanner goes on in the middle of a text with parentheses still open, so what
is preserved from one lexeme to the next is said for a rest of a text that
starts at some position inside some parentheses (`CoversFrom`).

The tree of a formula adds nothing either. Every inner node has the text of its
children (`Token.Joined`), hence that of the leaves below it
(`Token.text_eq_joinedText_leaves`), so the text of the root is what was read.
-/

namespace Worksheet.Formula

/-! ## Covering

The scanner is followed from an offset with some parentheses open. `CoversFrom`
is what it carries: the position of the rest, and the depth, which is never
below zero since a closing parenthesis with nothing open is a fault. -/

/-- The text of some lexemes, one after the other. -/
def joined (lexemes : List Lexeme) : List Char :=
  lexemes.flatMap Lexeme.text

def countOf (mark : Mark) (lexemes : List Lexeme) : Nat :=
  lexemes.countP fun lexeme => lexeme.kind.isMark mark

/-- **Lexemes cover a text.** The last two fields say that parentheses are
balanced: there are as many of both kinds, and at no place more closing ones. -/
structure Covers (text : List Char) (lexemes : List Lexeme) : Prop where
  /-- No lexeme is empty. -/
  nonempty : ∀ lexeme ∈ lexemes, lexeme.text ≠ []
  /-- Their texts joined are the text. -/
  joined_eq : joined lexemes = text
  /-- Each starts behind the bytes of those before it. -/
  start : ∀ front lexeme back, lexemes = front ++ lexeme :: back →
    lexeme.start = Text.byteLength (joined front)
  /-- Every parenthesis is closed. -/
  balanced : countOf .parenthesisOpen lexemes = countOf .parenthesisClose lexemes
  /-- None is closed before it is opened. -/
  nested : ∀ front back, lexemes = front ++ back →
    countOf .parenthesisClose front ≤ countOf .parenthesisOpen front

/-- **Lexemes cover a rest of a text** that starts at a position, with some
parentheses open before it. -/
structure CoversFrom (position depth : Nat) (text : List Char) (lexemes : List Lexeme) :
    Prop where
  nonempty : ∀ lexeme ∈ lexemes, lexeme.text ≠ []
  joined_eq : joined lexemes = text
  start : ∀ front lexeme back, lexemes = front ++ lexeme :: back →
    lexeme.start = position + Text.byteLength (joined front)
  balanced : depth + countOf .parenthesisOpen lexemes = countOf .parenthesisClose lexemes
  nested : ∀ front back, lexemes = front ++ back →
    countOf .parenthesisClose front ≤ depth + countOf .parenthesisOpen front

theorem joined_cons (lexeme : Lexeme) (lexemes : List Lexeme) :
    joined (lexeme :: lexemes) = lexeme.text ++ joined lexemes := rfl

theorem countOf_cons (mark : Mark) (lexeme : Lexeme) (lexemes : List Lexeme) :
    countOf mark (lexeme :: lexemes)
      = countOf mark lexemes + if lexeme.kind.isMark mark then 1 else 0 :=
  List.countP_cons

/-- The end of a text is covered by no lexemes. -/
theorem coversFrom_nil (position : Nat) : CoversFrom position 0 [] [] where
  nonempty := fun _ h => absurd h List.not_mem_nil
  joined_eq := rfl
  start := fun front lexeme back h =>
    absurd h.symm (List.append_ne_nil_of_right_ne_nil _ (List.cons_ne_nil _ _))
  balanced := rfl
  nested := by
    intro front back h
    rw [(List.append_eq_nil_iff.1 h.symm).1]
    exact Nat.le_refl _

/-- **A lexeme opens or closes a parenthesis, or neither.** The equation holds
without subtraction, with what is closed on one side and what is opened on the
other. -/
theorem length_openAfter? {opened opened' : List Nat} {position : Nat} {kind : LeafKind}
    (h : openAfter? opened position kind = some opened') :
    opened'.length + (if kind.isMark .parenthesisClose then 1 else 0)
      = opened.length + if kind.isMark .parenthesisOpen then 1 else 0 := by
  unfold openAfter? at h
  split at h
  · rename_i hopen
    have hclose : kind.isMark .parenthesisClose = false := by
      cases kind with
      | mark mark => cases mark <;> first | rfl | cases hopen
      | _ => rfl
    rw [← Option.some.inj h, hopen, hclose]
    rfl
  · rename_i hopen
    split at h
    · rename_i hclose
      split at h
      · cases h
      · rename_i last rest
        rw [← Option.some.inj h, hclose, Bool.eq_false_iff.2 hopen]
        rfl
    · rename_i hclose
      rw [← Option.some.inj h, Bool.eq_false_iff.2 hclose, Bool.eq_false_iff.2 hopen]

/-- **One more lexeme in front** of a rest that is covered. -/
theorem CoversFrom.cons {position depth depth' : Nat} {text rest : List Char}
    {lexemes : List Lexeme} {kind : LeafKind} (htext : text ≠ [])
    (hdepth : depth' + (if kind.isMark .parenthesisClose then 1 else 0)
      = depth + if kind.isMark .parenthesisOpen then 1 else 0)
    (h : CoversFrom (position + Text.byteLength text) depth' rest lexemes) :
    CoversFrom position depth (text ++ rest) (⟨kind, text, position⟩ :: lexemes) where
  nonempty := List.forall_mem_cons.2 ⟨htext, h.nonempty⟩
  joined_eq := by rw [joined_cons, h.joined_eq]
  start := by
    intro front lexeme back heq
    -- a front of the longer list is empty, or the new lexeme and a front of the
    -- list behind it
    cases front with
    | nil =>
      obtain ⟨rfl, -⟩ := List.cons.inj heq
      rfl
    | cons first front =>
      obtain ⟨rfl, hmore⟩ := List.cons.inj heq
      rw [h.start front lexeme back hmore, joined_cons, Text.byteLength_append, Nat.add_assoc]
  balanced := by
    have hbalanced := h.balanced
    rw [countOf_cons, countOf_cons]
    dsimp only
    omega
  nested := by
    intro front back heq
    cases front with
    | nil => exact Nat.zero_le _
    | cons first front =>
      obtain ⟨rfl, hmore⟩ := List.cons.inj heq
      have hnested := h.nested front back hmore
      rw [countOf_cons, countOf_cons]
      dsimp only
      omega

/-- **The lexemes of a rest of a text cover it**, by induction along the
scanner. The depth is the number of parentheses that it keeps as open. -/
theorem coversFrom_of_lexemesFrom {reader : Reader} {position : Nat} {opened : List Nat}
    {text : List Char} {lexemes : List Lexeme}
    (h : lexemesFrom reader position opened text = .ok lexemes) :
    CoversFrom position opened.length text lexemes := by
  fun_induction lexemesFrom reader position opened text generalizing lexemes with
  | case1 position =>
    obtain rfl := Except.ok.inj h
    exact coversFrom_nil position
  | case2 => cases h
  | case3 => cases h
  | case4 => cases h
  | case5 => cases h
  | case6 =>
    rename_i hscan _ hopened _ _ hfound ih
    obtain rfl := Except.ok.inj h
    have hcons := CoversFrom.cons (before_ne_nil_of_scan hscan) (length_openAfter? hopened)
      (ih hfound)
    rwa [before_append_of_scan hscan] at hcons

theorem covers_of_lexemes {reader : Reader} {text : List Char} {input : List Lexeme}
    (h : lexemes reader text = .ok input) : Covers text input := by
  obtain ⟨hnonempty, hjoined, hstart, hbalanced, hnested⟩ := coversFrom_of_lexemesFrom h
  simp only [List.length_nil, Nat.zero_add] at hstart hbalanced hnested
  exact ⟨hnonempty, hjoined, hstart, hbalanced, hnested⟩

/-! ## Trees

The leaves of a tree are the lexemes, by the theory of reading; that each inner
node has the text of its children is a matter of how nodes are made
(`Token.join`), and so holds of every shaped tree. -/

namespace Token

/-- **A node has the text of its children**, if it has any. -/
def Joined : Token → Prop
  | .leaf .. => True
  | .parent _ children text => text = joinedText children

theorem joined_leaf (kind : LeafKind) (text : List Char) :
    ∀ node ∈ (leaf kind text).nodes, node.Joined := by
  intro node hnode
  rw [List.mem_singleton.1 hnode]
  trivial

theorem joined_join {kind : ParentKind} {children : List Token}
    (h : ∀ child ∈ significant children, ∀ node ∈ child.nodes, node.Joined) :
    ∀ node ∈ (join kind children).nodes, node.Joined := by
  rw [nodes_join, List.forall_mem_cons]
  refine ⟨rfl, fun node hnode => ?_⟩
  obtain ⟨child, hchild, hnode⟩ := List.mem_flatMap.1 hnode
  cases hnoise : child.isNoise with
  | false =>
    exact h child (List.mem_filter.2 ⟨hchild, by rw [hnoise]; rfl⟩) node hnode
  | true =>
    cases child with
    | leaf kind text => exact joined_leaf kind text node hnode
    | parent kind children text => cases hnoise

mutual

/-- **A tree has the text of its leaves**, when every node has the text of its
children. -/
theorem text_eq_joinedText_leaves :
    ∀ tree : Token, (∀ node ∈ tree.nodes, node.Joined) → tree.text = joinedText tree.leaves
  | .leaf kind text, _ => (List.append_nil _).symm
  | .parent kind children text, h => by
    have hroot : text = joinedText children := h _ List.mem_cons_self
    rw [leaves]
    refine Eq.trans hroot (joinedText_eq_joinedText_leavesAll children fun node hnode => ?_)
    exact h node (List.mem_cons_of_mem _ hnode)

theorem joinedText_eq_joinedText_leavesAll :
    ∀ trees : List Token, (∀ node ∈ nodesAll trees, node.Joined) →
      joinedText trees = joinedText (leavesAll trees)
  | [], _ => rfl
  | tree :: trees, h => by
    have hfirst := text_eq_joinedText_leaves tree fun node hnode =>
      h node (List.mem_append_left _ hnode)
    have hrest := joinedText_eq_joinedText_leavesAll trees fun node hnode =>
      h node (List.mem_append_right _ hnode)
    rw [leavesAll, joinedText, joinedText, List.flatMap_cons, List.flatMap_append, hfirst]
    exact congrArg (_ ++ ·) hrest

end

end Token

open Token

/-- **The nodes of a shaped tree have the texts of their children**, by
induction on the shape. Nodes are made by `Token.join`, which leaves nothing out
of the text. -/
theorem Shaped.joined {tree : Token} (h : Shaped tree) : ∀ node ∈ tree.nodes, node.Joined := by
  induction h with
  | operand h =>
    obtain ⟨kind, text, rfl⟩ := exists_of_isOperand h
    exact joined_leaf kind text
  | range hfirst hcolon hlast =>
    obtain ⟨target, text, rfl⟩ := exists_of_isCell hfirst
    obtain ⟨target', text', rfl⟩ := exists_of_isCell hlast
    refine joined_join ?_
    -- a range keeps its two cells; the colon between them is noise
    rw [significant_cons rfl, significant_cons_of_isNoise (isNoise_of_isMark hcolon),
      significant_cons rfl, List.forall_mem_cons]
    exact ⟨joined_leaf _ _, List.forall_mem_singleton.2 (joined_leaf _ _)⟩
  | group hopener hfront hbody hback hcloser ih =>
    refine joined_join ?_
    rw [significant_enclosed hopener hfront hbody.isNoise hback hcloser]
    exact List.forall_mem_singleton.2 ih
  | emptyCall hname hopener hfront hcloser =>
    refine joined_join ?_
    obtain ⟨function, text, rfl⟩ := exists_of_isFunctionName hname
    rw [significant_emptyCall hname hopener hfront hcloser]
    exact List.forall_mem_singleton.2 (joined_leaf _ _)
  | call hname hopener hfront htokens harguments hcloser ih =>
    refine joined_join ?_
    have hsignificant := htokens.significant_eq fun argument hargument =>
      (harguments argument hargument).isNoise
    obtain ⟨function, text, rfl⟩ := exists_of_isFunctionName hname
    rw [significant_call hname hopener hfront hsignificant hcloser, List.forall_mem_cons]
    exact ⟨joined_leaf _ _, ih⟩
  | percentage hoperand hpercent ih =>
    refine joined_join ?_
    rw [significant_marked hoperand.isNoise hpercent]
    exact List.forall_mem_singleton.2 ih
  | negative hminus hfront hoperand ih =>
    refine joined_join ?_
    rw [significant_signed hminus hfront hoperand.isNoise]
    exact List.forall_mem_singleton.2 ih
  | binary hleft hfront hsign hback hright ihleft ihright =>
    refine joined_join ?_
    rw [significant_joined hleft.isNoise hfront hsign hback hright.isNoise, List.forall_mem_cons]
    exact ⟨ihleft, List.forall_mem_singleton.2 ihright⟩

theorem ShapedFormula.joined {tree : Token} (h : ShapedFormula tree) :
    ∀ node ∈ tree.nodes, node.Joined := by
  cases h with
  | intro hequals hfront hbody hback =>
    refine joined_join ?_
    rw [significant_formula hequals hfront hbody.isNoise hback]
    exact List.forall_mem_singleton.2 hbody.joined

theorem joinedText_map_token (lexemes : List Lexeme) :
    joinedText (lexemes.map Lexeme.token) = Formula.joined lexemes :=
  List.flatMap_map ..

/-- **The lexemes of a formula cover its text, and its tree goes over them.**
Whatever the settings, the lexemes of a text cover it. If a formula is read from
it, these lexemes are the leaves of the tree in order, every inner node has the
text of its children, and the root has the text. -/
theorem covers_formula (reader : Reader) (text : List Char) :
    (∀ input, lexemes reader text = .ok input → Covers text input) ∧
      ∀ token, Token.ofFormula? reader text = .ok token →
        (∃ input, lexemes reader text = .ok input ∧ token.leaves = input.map Lexeme.token) ∧
        (∀ node ∈ token.nodes, node.Joined) ∧ token.text = text := by
  refine ⟨fun input => covers_of_lexemes, fun token h => ?_⟩
  obtain ⟨input, hlexemes, hshaped, -, hleaves⟩ := ofFormula?_eq_ok_iff.1 h
  refine ⟨⟨input, hlexemes, hleaves.symm⟩, hshaped.joined, ?_⟩
  rw [text_eq_joinedText_leaves token hshaped.joined, ← hleaves, joinedText_map_token]
  exact (covers_of_lexemes hlexemes).joined_eq

/-- The lexemes and the tree of a formula with most kinds of lexemes. -/
theorem covers_nested :
    let text := "=(-(0.1-$B2)^LOG10(A1:C2,A1_x,\"a\"\"b\"))%".toList
    ∃ token, Token.ofFormula? Reader.standard text = .ok token ∧
      (∃ input, lexemes Reader.standard text = .ok input ∧ Covers text input ∧
        token.leaves = input.map Lexeme.token) ∧
      (∀ node ∈ token.nodes, node.Joined) ∧ token.text = text := by
  have hrender : '=' :: nested.render = "=(-(0.1-$B2)^LOG10(A1:C2,A1_x,\"a\"\"b\"))%".toList := by
    decide +kernel
  have hread := spellable_nested.ofFormula?_eq
  rw [hrender] at hread
  obtain ⟨⟨input, hlexemes, hleaves⟩, hjoined, htext⟩ := (covers_formula _ _).2 _ hread
  exact ⟨_, hread, ⟨input, hlexemes, (covers_formula _ _).1 input hlexemes, hleaves⟩, hjoined,
    htext⟩

end Worksheet.Formula
