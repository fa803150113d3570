import Worksheet.Proofs.Answers
import Worksheet.Proofs.Pattern.Derivation

/-!
# Trees spell the text they were read from

A tree is whole when none of its nodes is without text and every inner node has
the text of its children (`Token.Whole`). The leaves of a whole tree then give
its text, and they give all of it (`Token.Whole.joinedText_leaves`).

Every derivation yields whole nodes that together have the text that was taken
(`Parses.spells`). Nothing that was tried and given up can be among them: it
would be text that was not taken. So the tree of a part, of a section and of a
whole pattern has the text it was read from, and no other (`spells_standard`).
-/

namespace Worksheet

namespace Ebnf

mutual

/-- Whether every literal of an expression has text. -/
def Expr.hasText {S : Type} : Expr S → Bool
  | .literal text => !text.isEmpty
  | .symbol _ => true
  | .sequence parts => allHaveText parts
  | .choice parts => allHaveText parts
  | .optional part => part.hasText
  | .repetition part => part.hasText

def allHaveText {S : Type} : List (Expr S) → Bool
  | [] => true
  | part :: parts => part.hasText && allHaveText parts

end

theorem hasText_of_mem {S : Type} {part : Expr S} {parts : List (Expr S)}
    (h : allHaveText parts = true) (hmem : part ∈ parts) : part.hasText = true := by
  induction parts with
  | nil => cases hmem
  | cons first parts ih =>
    rw [allHaveText, Bool.and_eq_true] at h
    rcases List.mem_cons.1 hmem with rfl | hmem
    · exact h.1
    · exact ih h.2 hmem

/-- **No literal of a grammar is empty.** With an empty literal a leaf without
text could be read. -/
def Grammar.HasText {T : Type} (grammar : Grammar T) : Prop :=
  ∀ rule ∈ grammar.rules, rule.body.hasText = true

end Ebnf

namespace Pattern

open Ebnf

/-! ## Whole trees -/

namespace Token

/-- **A tree is whole**: no node is without text, and every inner node has the
text of its children. The type of trees does not ask for it, since trees can be
made without a text. -/
inductive Whole : Token → Prop
  | leaf {kind : LeafKind} {text : List Char} (htext : text ≠ []) : Whole (.leaf kind text)
  | parent {kind : ParentKind} {children : List Token}
      (hchildren : ∀ child ∈ children, Whole child) (htext : joinedText children ≠ []) :
      Whole (.parent kind children (joinedText children))

theorem Whole.text_ne_nil {token : Token} (h : token.Whole) : token.text ≠ [] := by
  cases h with
  | leaf htext => exact htext
  | parent hchildren htext => exact htext

theorem joinedText_append (tokens more : List Token) :
    joinedText (tokens ++ more) = joinedText tokens ++ joinedText more :=
  List.flatMap_append

theorem joinedText_singleton (token : Token) : joinedText [token] = token.text :=
  List.append_nil _

mutual

/-- **The leaves of a whole tree give its text**, from left to right and without
gaps. -/
theorem Whole.joinedText_leaves : ∀ {token : Token}, token.Whole →
    joinedText token.leaves = token.text
  | .leaf kind text, _ => joinedText_singleton _
  | .parent kind children text, h => by
    cases h with
    | parent hchildren htext => exact joinedText_leavesAll hchildren

theorem joinedText_leavesAll : ∀ {tokens : List Token}, (∀ token ∈ tokens, token.Whole) →
    joinedText (leavesSkippingAll (fun _ => false) tokens) = joinedText tokens
  | [], _ => rfl
  | token :: tokens, h => by
    have hfirst := Whole.joinedText_leaves (h token List.mem_cons_self)
    have hrest := joinedText_leavesAll fun other hother => h other (List.mem_cons_of_mem _ hother)
    rw [leavesSkippingAll, joinedText_append, hrest]
    exact congrArg (· ++ joinedText tokens) hfirst

end

/-- **A node is built** over nodes that have text, and has their text. -/
theorem parent?_eq_ok_iff {kind : ParentKind} {tokens : List Token} {token : Token} :
    parent? kind tokens = .ok token ↔
      joinedText tokens ≠ [] ∧ token = .parent kind tokens (joinedText tokens) := by
  show (if (joinedText tokens).isEmpty then _ else _) = _ ↔ _
  rw [Ne, ← List.isEmpty_iff]
  split
  · exact ⟨nofun, fun h => absurd ‹_› h.1⟩
  · exact ⟨fun h => ⟨‹_›, (Except.ok.inj h).symm⟩, fun h => congrArg _ h.2.symm⟩

theorem Whole.of_parent? {kind : ParentKind} {tokens : List Token} {token : Token}
    (htokens : ∀ token ∈ tokens, token.Whole) (h : parent? kind tokens = .ok token) :
    token.Whole ∧ token.text = joinedText tokens := by
  obtain ⟨htext, rfl⟩ := parent?_eq_ok_iff.1 h
  exact ⟨.parent htokens htext, rfl⟩

/-- **A tree spells a text**: it is whole, and both the tree and its leaves have
this text. -/
structure Spells (token : Token) (text : List Char) : Prop where
  /-- Every node has text, and every inner node that of its children. -/
  whole : token.Whole
  /-- The tree has the text. -/
  text_eq : token.text = text
  /-- The leaves have it in source order. -/
  leaves_eq : joinedText token.leaves = text

theorem Whole.spells {token : Token} (h : token.Whole) : token.Spells token.text :=
  ⟨h, rfl, h.joinedText_leaves⟩

end Token

/-- The node of a rule is built like any other, also that of a condition, which
looks for its comparison first. -/
theorem Shape.exists_of_build? {shape : Shape} {tokens : List Token} {token : Token}
    (h : shape.build? tokens = some token) : ∃ kind, Token.parent? kind tokens = .ok token := by
  unfold build? at h
  split at h
  · exact ⟨_, eq_ok_of_toOption h⟩
  · split at h
    · exact ⟨_, eq_ok_of_toOption h⟩
    · cases h

/-! ## Derivations -/

/-- **Nodes make up a text**: they are whole, and have this text one after the
other. -/
structure MakeUp (tokens : List Token) (text : List Char) : Prop where
  whole : ∀ token ∈ tokens, token.Whole
  joinedText_eq : Token.joinedText tokens = text

namespace MakeUp

variable {tokens more : List Token} {token : Token} {text after : List Char}

theorem nil : MakeUp [] [] :=
  ⟨nofun, rfl⟩

theorem singleton (h : token.Whole) : MakeUp [token] token.text :=
  ⟨List.forall_mem_singleton.2 h, Token.joinedText_singleton token⟩

theorem append (h : MakeUp tokens text) (hmore : MakeUp more after) :
    MakeUp (tokens ++ more) (text ++ after) :=
  ⟨List.forall_mem_append.2 ⟨h.whole, hmore.whole⟩,
    by rw [Token.joinedText_append, h.joinedText_eq, hmore.joinedText_eq]⟩

theorem spells (h : MakeUp [token] text) : token.Spells text := by
  have htext := h.joinedText_eq
  rw [Token.joinedText_singleton] at htext
  exact htext ▸ (h.whole token List.mem_cons_self).spells

end MakeUp

variable {grammar : Grammar Terminal}

theorem makeUp_of_scan? {terminal : Terminal} {input rest : List Char} {kind : LeafKind}
    (h : terminal.scan? input = some (kind, rest)) :
    ∃ taken, input = taken ++ rest ∧ MakeUp [.leaf kind (Text.before input rest)] taken := by
  obtain ⟨head, -, tail, rfl, ⟨front, rfl⟩, -⟩ := Terminal.begins_of_scan? h
  refine ⟨head.char :: front, rfl, ?_⟩
  rw [← List.cons_append, Text.before_append]
  exact .singleton (.leaf (List.cons_ne_nil _ _))

/-- **What is parsed spells what is taken**: the nodes of a derivation make up
the text in front of the rest. By induction on the derivation; readings that
were tried and given up are no part of it. -/
theorem Parses.makeUp (hgrammar : grammar.HasText) {e : Expr (Symbol Terminal)}
    {input rest : List Char} {tokens : List Token} (h : Parses grammar e input tokens rest)
    (he : e.hasText = true) : ∃ taken, input = taken ++ rest ∧ MakeUp tokens taken := by
  induction h with
  | literal =>
    refine ⟨_, rfl, .singleton (.leaf fun hnil => ?_)⟩
    rw [Expr.hasText, hnil] at he
    cases he
  | terminal hscan => exact makeUp_of_scan? hscan
  | splice hrule hshape hbody ih => exact ih (hgrammar _ (List.mem_of_getElem? hrule))
  | node hrule hshape hbuild hbody ih =>
    obtain ⟨taken, heq, htokens⟩ := ih (hgrammar _ (List.mem_of_getElem? hrule))
    -- a node's text is made of its children's, which are made of the text
    -- taken
    obtain ⟨kind, hparent⟩ := Shape.exists_of_build? hbuild
    obtain ⟨hwhole, htext⟩ := Token.Whole.of_parent? htokens.whole hparent
    exact ⟨taken, heq, htokens.joinedText_eq ▸ htext ▸ .singleton hwhole⟩
  | nil => exact ⟨[], rfl, .nil⟩
  | cons hpart hparts ihpart ihparts =>
    rw [Expr.hasText, allHaveText, Bool.and_eq_true] at he
    obtain ⟨taken, rfl, htokens⟩ := ihpart he.1
    obtain ⟨taken', rfl, hmore⟩ := ihparts he.2
    exact ⟨taken ++ taken', (List.append_assoc _ _ _).symm, htokens.append hmore⟩
  | choice hmem hpart ih =>
    rw [Expr.hasText] at he
    exact ih (hasText_of_mem he hmem)
  | absent => exact ⟨[], rfl, .nil⟩
  | present hpart ih => exact ih he
  | stop => exact ⟨[], rfl, .nil⟩
  | round hpart hmore ihpart ihmore =>
    obtain ⟨taken, rfl, htokens⟩ := ihpart he
    obtain ⟨taken', rfl, hrounds⟩ := ihmore he
    exact ⟨taken ++ taken', (List.append_assoc _ _ _).symm, htokens.append hrounds⟩

/-- **A rule spells what it takes.** -/
theorem makeUp_of_evaluateRule (hgrammar : grammar.HasText) {depth index : Nat}
    {input rest : List Char} {tokens : List Token}
    (h : (evaluateRule grammar depth index input).matched = some (tokens, rest)) :
    ∃ taken, input = taken ++ rest ∧ MakeUp tokens taken :=
  (parses_of_evaluateRule grammar depth index input tokens rest h).makeUp hgrammar rfl

/-! ## Parts, sections and patterns -/

/-- **A part spells what it takes**, in a grammar without empty literals. -/
theorem spells_of_readPart (hgrammar : grammar.HasText) {part : Part} {input rest : List Char}
    {token : Token} (h : (readPart grammar part input).1 = some (token, rest)) :
    ∃ taken, input = taken ++ rest ∧ token.Spells taken := by
  unfold readPart at h
  split at h
  · cases h
  · simp only at h
    split at h
    · rename_i hmatched
      obtain ⟨rfl, rfl⟩ := Prod.mk.inj (Option.some.inj h)
      obtain ⟨taken, heq, htokens⟩ := makeUp_of_evaluateRule hgrammar hmatched
      exact ⟨taken, heq, htokens.spells⟩
    · cases h

/-- **A whole part spells its text.** -/
theorem spells_of_wholePart? (hgrammar : grammar.HasText) {part : Part} {text : List Char}
    {token : Token} (h : wholePart? grammar part text = .ok token) : token.Spells text := by
  unfold wholePart? at h
  split at h
  · cases h
  · split at h
    · rename_i hread
      obtain rfl := Except.ok.inj h
      obtain ⟨taken, rfl, hspells⟩ := spells_of_readPart hgrammar (congrArg Prod.fst hread)
      rwa [List.append_nil]
    · cases h
    · cases h

theorem exists_of_readSection {input : List Char} {parts : List Part} {reach reached : Nat}
    {token : Token} {rest : List Char}
    (h : readSection grammar input parts reach = (some (token, rest), reached)) :
    ∃ part ∈ parts, (readPart grammar part input).1 = some (token, rest) := by
  induction parts generalizing reach with
  | nil => cases h
  | cons part parts ih =>
    rw [readSection] at h
    split at h
    · rename_i hread
      split at h
      · obtain ⟨heq, -⟩ := Prod.mk.inj h
        exact ⟨part, List.mem_cons_self, heq ▸ congrArg Prod.fst hread⟩
      · obtain ⟨other, hmem, hother⟩ := ih h
        exact ⟨other, List.mem_cons_of_mem _ hmem, hother⟩
    · obtain ⟨other, hmem, hother⟩ := ih h
      exact ⟨other, List.mem_cons_of_mem _ hmem, hother⟩

/-- What is read of a section, which may be nothing, makes up what is taken. The
hypothesis is the body of the recursion of `readSections`. -/
theorem makeUp_of_section (hgrammar : grammar.HasText) {alternatives : List Part}
    {input rest : List Char} {reach reached : Nat} {tokens : List Token}
    (h : (if _ : endsSection input = true then (some ([], input), reach)
      else
        match readSection grammar input alternatives reach with
        | (some (token, rest), reached) => (some ([token], rest), reached)
        | (none, reached) => (none, reached)) = (some (tokens, rest), reached)) :
    ∃ taken, input = taken ++ rest ∧ MakeUp tokens taken := by
  split at h
  · obtain ⟨rfl, rfl⟩ := Prod.mk.inj (Option.some.inj (Prod.mk.inj h).1)
    exact ⟨[], rfl, .nil⟩
  · split at h
    · rename_i hsection
      obtain ⟨rfl, rfl⟩ := Prod.mk.inj (Option.some.inj (Prod.mk.inj h).1)
      obtain ⟨part, -, hpart⟩ := exists_of_readSection hsection
      obtain ⟨taken, heq, hspells⟩ := spells_of_readPart hgrammar hpart
      exact ⟨taken, heq, hspells.text_eq ▸ .singleton hspells.whole⟩
    · cases (Prod.mk.inj h).1

/-- **Sections and separators make up the rest of a text**, by induction on the
recursion of `readSections`. -/
theorem makeUp_of_readSections (hgrammar : grammar.HasText) {alternatives : List Part}
    {text input : List Char} {reach : Nat} {tokens : List Token}
    (h : readSections grammar alternatives text reach input = .ok tokens) :
    MakeUp tokens input := by
  fun_induction readSections grammar alternatives text reach input generalizing tokens with
  | case1 => cases h
  | case2 =>
    rename_i hread
    obtain rfl := Except.ok.inj h
    obtain ⟨slice, rfl, hsection⟩ := makeUp_of_section hgrammar hread
    rwa [List.append_nil]
  | case3 => cases h
  | case4 => cases h
  | case5 =>
    rename_i reached _ hread index _ outcome separators after hseparators _ ih
    obtain ⟨slice, rfl, hsection⟩ := makeUp_of_section hgrammar hread
    obtain ⟨mark, rfl, hmark⟩ := makeUp_of_evaluateRule hgrammar hseparators
    cases hmore : readSections grammar alternatives text (min reached outcome.reach) after with
    | error e =>
      rw [hmore] at h
      cases h
    | ok more =>
      rw [hmore] at h
      obtain rfl := Except.ok.inj h
      rw [← List.append_assoc]
      exact (hsection.append hmark).append (ih hmore)
  | case6 => cases h

/-- **A pattern spells its text.** -/
theorem spells_of_wholePattern? (hgrammar : grammar.HasText) {alternatives : List Part}
    {text : List Char} {token : Token}
    (h : wholePattern? grammar alternatives text = .ok token) : token.Spells text := by
  unfold wholePattern? at h
  split at h
  · cases h
  · split at h
    · cases h
    · rename_i tokens hread
      have htokens := makeUp_of_readSections hgrammar hread
      obtain ⟨hwhole, htext⟩ := Token.Whole.of_parent? htokens.whole h
      rw [← htokens.joinedText_eq, ← htext]
      exact hwhole.spells

/-- **The first section spells what it takes**, which is all in front of the
first semicolon. -/
theorem spells_of_firstSection? (hgrammar : grammar.HasText) {input rest : List Char}
    {token : Token} (h : firstSection? grammar input = some (token, rest)) :
    ∃ taken, input = taken ++ rest ∧ token.Spells taken := by
  obtain ⟨part, -, hpart⟩ := List.exists_of_findSome?_eq_some h
  split at hpart
  · rename_i hread
    split at hpart
    · obtain ⟨rfl, rfl⟩ := Prod.mk.inj (Option.some.inj hpart)
      exact spells_of_readPart hgrammar hread
    · cases hpart
  · cases hpart

theorem hasText_standard : standard.HasText := by
  unfold Grammar.HasText
  decide

/-! ## The grammar of patterns -/

/-- **A tree spells a slice of a text**, which is not empty and lies between two
byte positions. -/
def Token.SpellsBetween (token : Token) (text : List Char) (start stop : Nat) : Prop :=
  start < stop ∧ ∃ front slice rest, text = front ++ slice ++ rest ∧
    Text.byteLength front = start ∧ Text.byteLength (front ++ slice) = stop ∧ token.Spells slice

theorem Token.Spells.between {token : Token} {text input taken rest : List Char} {start : Nat}
    (hinput : Text.fromByte? start text = some input) (heq : input = taken ++ rest)
    (h : token.Spells taken) : token.SpellsBetween text start (Text.position text rest) := by
  obtain ⟨front, rfl, hfront⟩ := Text.fromByte?_eq_some_iff.1 hinput
  subst heq
  have htaken : 0 < Text.byteLength taken := by
    cases taken with
    | nil => exact absurd h.text_eq h.whole.text_ne_nil
    | cons c taken => exact Nat.lt_of_lt_of_le c.utf8Size_pos (Nat.le_add_right _ _)
  rw [← List.append_assoc, Text.position_append]
  refine ⟨?_, front, taken, rest, rfl, hfront, rfl, h⟩
  rw [Text.byteLength_append]
  omega

/-- **Every tree read by the grammar of patterns spells what it was read from**:
the tree of a part or of a pattern the whole text, whatever its sections may be,
and the tree of a part or of a section in front of more text the slice that was
taken (`Token.SpellsBetween`). -/
theorem spells_standard :
    (∀ part text token, wholePart? standard part text = .ok token → token.Spells text) ∧
      (∀ alternatives text token, wholePattern? standard alternatives text = .ok token →
        token.Spells text) ∧
      ∀ text start input, Text.fromByte? start text = some input →
        (∀ part token rest, (readPart standard part input).1 = some (token, rest) →
          token.SpellsBetween text start (Text.position text rest)) ∧
        ∀ token rest, firstSection? standard input = some (token, rest) →
          token.SpellsBetween text start (Text.position text rest) := by
  have hgrammar := hasText_standard
  refine ⟨fun part text token => spells_of_wholePart? hgrammar,
    fun alternatives text token => spells_of_wholePattern? hgrammar,
    fun text start input hinput => ⟨fun part token rest h => ?_, fun token rest h => ?_⟩⟩
  · obtain ⟨taken, heq, hspells⟩ := spells_of_readPart hgrammar h
    exact hspells.between hinput heq
  · obtain ⟨taken, heq, hspells⟩ := spells_of_firstSection? hgrammar h
    exact hspells.between hinput heq

/-- A fraction is tried for the section behind the first separator, and given up
for a number; and the section is read by itself, as a whole and in front of more
text. -/
theorem spells_twoSections :
    let text := "é;[Red]# 0.0\"k\";@".toList
    let number := "[Red]# 0.0\"k\"".toList
    let input := number ++ ";@".toList
    (∃ token, wholePart? standard .number number = .ok token ∧ token.Spells number) ∧
    (∃ token, wholePattern? standard [.fraction, .number, .text] (text.drop 1) = .ok token ∧
      token.Spells (text.drop 1)) ∧
    Text.fromByte? 3 text = some input ∧
    (∃ token rest, (readPart standard .number input).1 = some (token, rest) ∧
      token.SpellsBetween text 3 (Text.position text rest)) ∧
    ∃ token rest, firstSection? standard input = some (token, rest) ∧
      token.SpellsBetween text 3 (Text.position text rest) := by
  intro text number input
  obtain ⟨hpart, hpattern, hinput, hprefix, hsection⟩ :
      (wholePart? standard .number number).isOk = true ∧
      (wholePattern? standard [.fraction, .number, .text] (text.drop 1)).isOk = true ∧
      Text.fromByte? 3 text = some input ∧ (readPart standard .number input).1.isSome = true ∧
      (firstSection? standard input).isSome = true := by
    decide +kernel
  obtain ⟨token, htoken⟩ := exists_of_isOk hpart
  obtain ⟨pattern, hwhole⟩ := exists_of_isOk hpattern
  obtain ⟨⟨part, rest⟩, hread⟩ := Option.isSome_iff_exists.1 hprefix
  obtain ⟨⟨section', after⟩, hfirst⟩ := Option.isSome_iff_exists.1 hsection
  obtain ⟨hparts, hpatterns, hslices⟩ := spells_standard
  obtain ⟨hprefixes, hsections⟩ := hslices text 3 input hinput
  exact ⟨⟨token, htoken, hparts _ _ _ htoken⟩, ⟨pattern, hwhole, hpatterns _ _ _ hwhole⟩, hinput,
    ⟨part, rest, hread, hprefixes _ _ _ hread⟩, section', after, hfirst, hsections _ _ hfirst⟩

end Pattern

end Worksheet
