import Mathlib.Data.List.Chain
import Worksheet.Ebnf.Lexeme
import Worksheet.Proofs.Text.Digits

/-!
# The layout of grammar sources

A grammar source is its tokens in order, with blanks and comments before,
between and behind them or with none at all (`Laid`). The lexemes of a text are
the tokens it is laid out from: a text whose lexemes are all tokens is laid out
from them (`laid_lexemes`), and a text laid out from tokens has them for its
lexemes (`lexemes_of_laid`), unless two names meet, which could be one.

A comment ends where it can first end, so none has the end of one inside. The
star of a comment begins no token, so that a parenthesis before a token is never
taken for the beginning of a comment.
-/

namespace Worksheet.Ebnf

/-- The marks of the notation. A mark is a token of one character. -/
def marks : List Char :=
  ['=', ';', '|', ',', '[', ']', '{', '\x7d', '(', ')']

/-- **How tokens are spelled.** Lexemes that report what cannot be read have no
spelling. -/
inductive Spelling : Lexeme → List Char → Prop
  | name {c : Char} {rest : List Char} (hstart : isNameStart c = true)
      (hpart : ∀ d ∈ rest, isNamePart d = true) : Spelling (.name (c :: rest)) (c :: rest)
  | literal {text : List Char} (hsome : text ≠ []) (hquote : '"' ∉ text) :
      Spelling (.literal text) ('"' :: (text ++ ['"']))
  | mark {c : Char} (hmark : c ∈ marks) : Spelling (.mark c) [c]

/-- **What may stand between tokens**: blanks, and comments up to where they
first end. -/
inductive Layout : List Char → Prop
  | nil : Layout []
  | blank {c : Char} {rest : List Char} (hc : Text.isAsciiBlank c = true) (hrest : Layout rest) :
      Layout (c :: rest)
  | comment {body rest : List Char} (hbody : ¬['*', ')'] <:+: body) (hrest : Layout rest) :
      Layout ('(' :: '*' :: (body ++ '*' :: ')' :: rest))

/-- **A text laid out from tokens**, with a `Layout` before each of them and one
at the end. -/
inductive Laid : List Lexeme → List Char → Prop
  | nil {blanks : List Char} (hblanks : Layout blanks) : Laid [] blanks
  | cons {lexeme : Lexeme} {tokens : List Lexeme} {blanks text rest : List Char}
      (hblanks : Layout blanks) (htext : Spelling lexeme text) (hrest : Laid tokens rest) :
      Laid (lexeme :: tokens) (blanks ++ (text ++ rest))

def Lexeme.IsToken : Lexeme → Prop
  | .name _ | .literal _ => True
  | .mark c => c ∈ marks
  | .openComment | .openLiteral | .emptyLiteral => False

/-- Whether two lexemes are told apart without a blank between them. Only names
are not. -/
def Lexeme.Apart : Lexeme → Lexeme → Prop
  | .name _, .name _ => False
  | _, _ => True

/-! ## Comments and literals -/

theorem afterComment?_append {body : List Char} (h : ¬['*', ')'] <:+: body) (rest : List Char) :
    afterComment? (body ++ '*' :: ')' :: rest) = some rest := by
  induction body with
  | nil => rfl
  | cons c body ih =>
    rw [List.cons_append, afterComment?]
    · exact ih fun hinside => h (hinside.trans (List.suffix_cons c body).isInfix)
    · rintro after rfl hafter
      cases body with
      | nil => cases hafter
      | cons d body =>
        obtain ⟨rfl, -⟩ := List.cons.inj hafter
        exact h ⟨[], body, rfl⟩

theorem exists_of_afterComment? {text rest : List Char} (h : afterComment? text = some rest) :
    ∃ body, text = body ++ '*' :: ')' :: rest ∧ ¬['*', ')'] <:+: body := by
  fun_induction afterComment? text with
  | case1 => cases h
  | case2 rest =>
    obtain rfl := Option.some.inj h
    exact ⟨[], rfl, by simp⟩
  | case3 c text hopen ih =>
    obtain ⟨body, rfl, hbody⟩ := ih h
    refine ⟨c :: body, rfl, fun hinside => ?_⟩
    rcases List.infix_cons_iff.1 hinside with hprefix | hinside
    · obtain ⟨after, hafter⟩ := hprefix
      obtain ⟨rfl, rfl⟩ := List.cons.inj hafter
      exact hopen _ rfl rfl
    · exact hbody hinside

theorem literalBody?_append {text : List Char} (h : '"' ∉ text) (rest : List Char) :
    literalBody? (text ++ '"' :: rest) = some (text, rest) := by
  induction text with
  | nil => rfl
  | cons c text ih =>
    rw [List.mem_cons, not_or] at h
    obtain ⟨hc, htext⟩ := h
    rw [List.cons_append, literalBody?, ih htext]
    · rfl
    · exact fun hquote => hc hquote.symm

theorem exists_of_literalBody? {text body rest : List Char}
    (h : literalBody? text = some (body, rest)) : text = body ++ '"' :: rest ∧ '"' ∉ body := by
  fun_induction literalBody? text generalizing body with
  | case1 => cases h
  | case2 after =>
    obtain ⟨rfl, rfl⟩ := Prod.mk.inj (Option.some.inj h)
    exact ⟨rfl, List.not_mem_nil⟩
  | case3 c text hc ih =>
    obtain ⟨⟨inner, after⟩, hinner, heq⟩ := Option.map_eq_some_iff.1 h
    obtain ⟨rfl, rfl⟩ := Prod.mk.inj heq
    obtain ⟨rfl, hquote⟩ := ih hinner
    refine ⟨rfl, ?_⟩
    rw [List.mem_cons, not_or]
    exact ⟨fun heq => hc heq.symm, hquote⟩

/-! ## Blanks

`Layout` can be put before anything that is laid out, and a token before
anything with its spelling. By these two the cases of `lexemes` are put
together to a layout of the whole text. -/

theorem Layout.append {blanks rest : List Char} (h : Layout blanks) (hrest : Layout rest) :
    Layout (blanks ++ rest) := by
  induction h with
  | nil => exact hrest
  | blank hc _ ih => exact .blank hc ih
  | @comment body after hbody _ ih =>
    rw [List.cons_append, List.cons_append, List.append_assoc]
    exact .comment hbody ih

theorem Laid.prepend {blanks text : List Char} {tokens : List Lexeme} (hblanks : Layout blanks)
    (h : Laid tokens text) : Laid tokens (blanks ++ text) := by
  cases h with
  | nil hlayout => exact .nil (hblanks.append hlayout)
  | cons hlayout htext hrest =>
    rw [← List.append_assoc]
    exact .cons (hblanks.append hlayout) htext hrest

theorem Laid.token {lexeme : Lexeme} {tokens : List Lexeme} {text rest : List Char}
    (htext : Spelling lexeme text) (hrest : Laid tokens rest) :
    Laid (lexeme :: tokens) (text ++ rest) :=
  .cons .nil htext hrest

/-- **A text whose lexemes are tokens is laid out from them**, by the cases of
`lexemes`. -/
theorem laid_lexemes {source text : List Char}
    (h : ∀ placed ∈ lexemes source text, placed.lexeme.IsToken) :
    Laid ((lexemes source text).map Placed.lexeme) text := by
  fun_induction lexemes source text with
  | case1 => exact .nil .nil
  | case2 inside rest hcomment ih =>
    obtain ⟨body, rfl, hbody⟩ := exists_of_afterComment? hcomment
    have hlayout := (ih h).prepend (.comment hbody .nil)
    rwa [List.cons_append, List.cons_append, List.append_assoc] at hlayout
  | case3 => exact (h _ List.mem_cons_self).elim
  | case4 => exact (h _ List.mem_cons_self).elim
  | case5 inside body rest hsome hbody here ih =>
    obtain ⟨rfl, hquote⟩ := exists_of_literalBody? hbody
    have htoken := (ih (List.forall_mem_cons.1 h).2).token (.literal hsome hquote)
    rwa [List.cons_append, List.append_assoc] at htoken
  | case6 => exact (h _ List.mem_cons_self).elim
  | case7 c rest _ _ hc ih => exact (ih h).prepend (.blank hc .nil)
  | case8 c rest _ _ _ hstart here ih =>
    have hname : Spelling (.name (c :: rest.takeWhile isNamePart))
        (c :: rest.takeWhile isNamePart) := .name hstart fun d hd => List.mem_takeWhile_imp hd
    have htoken := (ih (List.forall_mem_cons.1 h).2).token hname
    rwa [List.cons_append, List.takeWhile_append_dropWhile] at htoken
  | case9 c rest _ _ _ _ here ih =>
    obtain ⟨hmark, hrest⟩ := List.forall_mem_cons.1 h
    exact (ih hrest).token (.mark hmark)

/-! ## What a text may begin with

For the converse it matters what comes next: a name goes on with every
character that may be in a name, and a parenthesis with a star would open a
comment. A text that is laid out from tokens begins with a blank, with a
comment or with its first token, and none of them goes on with a name unless
that token is one. -/

/-- A run that goes on neither with a blank nor with the parenthesis of a
comment, so that layout ends it. -/
structure IsUnbroken (p : Char → Bool) : Prop where
  blank : ∀ c, Text.isAsciiBlank c = true → p c = false
  parenthesis : p '(' = false

/-- **A text laid out from tokens ends a run** when its first token does. -/
theorem Laid.stops {p : Char → Bool} (hp : IsUnbroken p) {tokens : List Lexeme}
    {text : List Char} (h : Laid tokens text)
    (htoken : ∀ lexeme ∈ tokens.head?, ∀ {text}, Spelling lexeme text → ∀ rest,
      Text.Stops p (text ++ rest)) : Text.Stops p text := by
  have hlayout : ∀ {blanks rest : List Char}, Layout blanks → Text.Stops p rest →
      Text.Stops p (blanks ++ rest) := by
    intro blanks rest hblanks hrest
    cases hblanks with
    | nil => exact hrest
    | blank hc => exact Text.stops_cons.2 (hp.blank _ hc)
    | comment => exact Text.stops_cons.2 hp.parenthesis
  cases h with
  | nil hblanks =>
    have hstops : Text.Stops p (text ++ []) := hlayout hblanks rfl
    rwa [List.append_nil] at hstops
  | cons hblanks htext => exact hlayout hblanks (htoken _ rfl htext _)

def blankChars : List Char :=
  [' ', '\t', '\n', '\r', '\x0c']

theorem mem_blankChars {c : Char} (h : Text.isAsciiBlank c = true) : c ∈ blankChars := by
  simp only [Text.isAsciiBlank, Bool.or_eq_true, beq_iff_eq] at h
  rcases h with (((rfl | rfl) | rfl) | rfl) | hc
  · decide
  · decide
  · decide
  · decide
  · obtain rfl : c = '\x0c' := by
      rw [← Char.ofNat_toNat c, hc]
    decide

theorem isNamePart_of_isAsciiBlank {c : Char} (h : Text.isAsciiBlank c = true) :
    isNamePart c = false ∧ isNameStart c = false := by
  have hmem := mem_blankChars h
  simp only [blankChars, List.mem_cons, List.not_mem_nil, or_false] at hmem
  rcases hmem with rfl | rfl | rfl | rfl | rfl <;> exact ⟨rfl, rfl⟩

theorem isAsciiBlank_of_mem_marks {c : Char} (h : c ∈ marks) :
    Text.isAsciiBlank c = false ∧ isNameStart c = false ∧ isNamePart c = false ∧ c ≠ '"' := by
  simp only [marks, List.mem_cons, List.not_mem_nil, or_false] at h
  rcases h with rfl | rfl | rfl | rfl | rfl | rfl | rfl | rfl | rfl | rfl <;>
    exact ⟨rfl, rfl, rfl, by decide⟩

/-- A name is told apart from what comes next, unless that is a name. -/
theorem Laid.stops_isNamePart {tokens : List Lexeme} {text name : List Char}
    (h : Laid tokens text) (hapart : ∀ lexeme ∈ tokens.head?, (Lexeme.name name).Apart lexeme) :
    Text.Stops isNamePart text := by
  refine h.stops ⟨fun c hc => (isNamePart_of_isAsciiBlank hc).1, rfl⟩ ?_
  intro lexeme hlexeme text hspelling rest
  cases hspelling with
  | name => exact (hapart _ hlexeme).elim
  | literal => rfl
  | mark hmark => exact Text.stops_cons.2 (isAsciiBlank_of_mem_marks hmark).2.2.1

/-- No text begins with the star of a comment, so a parenthesis that is a token
opens none. -/
theorem Laid.head?_ne_star {tokens : List Lexeme} {text : List Char} (h : Laid tokens text) :
    text.head? ≠ some '*' := by
  have hstops : Text.Stops (· == '*') text := by
    refine h.stops ⟨?_, rfl⟩ ?_
    · intro c hc
      refine beq_eq_false_iff_ne.2 ?_
      rintro rfl
      cases hc
    · intro lexeme _ text hspelling rest
      cases hspelling with
      | name hstart =>
        refine Text.stops_cons.2 (beq_eq_false_iff_ne.2 ?_)
        rintro rfl
        cases hstart
      | literal => rfl
      | mark hmark =>
        refine Text.stops_cons.2 (beq_eq_false_iff_ne.2 ?_)
        rintro rfl
        exact absurd hmark (by decide)
  intro hhead
  cases text with
  | nil => cases hhead
  | cons c text =>
    obtain rfl := Option.some.inj hhead
    cases Text.stops_cons.1 hstops

/-! ## The lexemes of a laid out text

One equation for each way in which a lexeme can begin, and then two inductions:
layout has no lexemes, and a token is the first lexeme of what it is put
before. -/

variable {source : List Char}

theorem lexemes_comment {inside rest : List Char} (h : afterComment? inside = some rest) :
    lexemes source ('(' :: '*' :: inside) = lexemes source rest := by
  rw [lexemes]
  split
  · rename_i found hfound
    rw [h] at hfound
    obtain rfl := Option.some.inj hfound
    rfl
  · rename_i hnone
    rw [h] at hnone
    cases hnone

theorem lexemes_literal {inside body rest : List Char}
    (h : literalBody? inside = some (body, rest)) (hsome : body ≠ []) :
    (lexemes source ('"' :: inside)).map Placed.lexeme
      = .literal body :: (lexemes source rest).map Placed.lexeme := by
  rw [lexemes]
  split
  · rename_i found hfound
    rw [h] at hfound
    exact absurd (Prod.mk.inj (Option.some.inj hfound)).1 hsome
  · rename_i found after _ hfound
    rw [h] at hfound
    obtain ⟨rfl, rfl⟩ := Prod.mk.inj (Option.some.inj hfound)
    rfl
  · rename_i hnone
    rw [h] at hnone
    cases hnone

/-- Any other character is skipped or begins a name, or is a mark. -/
theorem lexemes_cons {c : Char} {rest : List Char} (hquote : c ≠ '"')
    (hopen : c = '(' → rest.head? ≠ some '*') :
    (lexemes source (c :: rest)).map Placed.lexeme
      = if Text.isAsciiBlank c then (lexemes source rest).map Placed.lexeme
        else if isNameStart c then .name (c :: rest.takeWhile isNamePart)
          :: (lexemes source (rest.dropWhile isNamePart)).map Placed.lexeme
        else .mark c :: (lexemes source rest).map Placed.lexeme := by
  rw [lexemes]
  · split
    · rfl
    · split <;> rfl
  · rintro inside rfl rfl
    exact hopen rfl rfl
  · exact hquote

/-- Blanks and comments give no lexemes, by induction on `Layout`. -/
theorem lexemes_layout {blanks : List Char} (h : Layout blanks) (rest : List Char) :
    (lexemes source (blanks ++ rest)).map Placed.lexeme
      = (lexemes source rest).map Placed.lexeme := by
  induction h with
  | nil => rfl
  | blank hc _ ih =>
    rw [List.cons_append, lexemes_cons, if_pos hc, ih]
    · rintro rfl
      cases hc
    · rintro rfl
      cases hc
  | comment hbody _ ih =>
    rw [List.cons_append, List.cons_append, List.append_assoc]
    exact (congrArg _ (lexemes_comment (afterComment?_append hbody _))).trans ih

/-- **The lexemes of a text are the tokens it is laid out from**, unless two
names meet. By induction on how it is laid out. -/
theorem lexemes_of_laid {tokens : List Lexeme} {text : List Char} (h : Laid tokens text)
    (hapart : tokens.IsChain Lexeme.Apart) :
    (lexemes source text).map Placed.lexeme = tokens := by
  induction h with
  | @nil blanks hblanks =>
    rw [← List.append_nil blanks, lexemes_layout hblanks, lexemes]
    rfl
  | @cons lexeme tokens blanks text rest hblanks htext hrest ih =>
    obtain ⟨hnext, htokens⟩ := List.isChain_cons.1 hapart
    rw [lexemes_layout hblanks]
    cases htext with
    | @name c name hstart hpart =>
      -- the name ends where it was written to end, since what follows is not
      -- part of a name
      have hrun := Text.takeRun_append_of_all hpart (hrest.stops_isNamePart hnext)
      obtain ⟨htaken, hdropped⟩ := Prod.mk.inj hrun
      have hblank : ¬Text.isAsciiBlank c = true := fun hc =>
        absurd hstart (Bool.eq_false_iff.1 (isNamePart_of_isAsciiBlank hc).2)
      rw [List.cons_append, lexemes_cons, if_neg hblank, if_pos hstart, htaken, hdropped,
        ih htokens]
      · rintro rfl
        cases hstart
      · rintro rfl
        cases hstart
    | literal hsome hquote =>
      rw [List.cons_append, List.append_assoc]
      exact (lexemes_literal (literalBody?_append hquote rest) hsome).trans
        (congrArg _ (ih htokens))
    | mark hmark =>
      obtain ⟨hblank, hstart, -, hquote⟩ := isAsciiBlank_of_mem_marks hmark
      rw [List.singleton_append, lexemes_cons hquote fun _ => hrest.head?_ne_star, hblank,
        if_neg Bool.false_ne_true, hstart, if_neg Bool.false_ne_true, ih htokens]

end Worksheet.Ebnf
