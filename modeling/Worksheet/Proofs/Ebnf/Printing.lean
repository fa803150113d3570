import Worksheet.Proofs.Ebnf.Source

/-!
# Grammars as they are printed

There is one plain way to write down the rules of a grammar: alternatives with
bars between them, sequences with commas, and parentheses around a part only
where the part binds weaker than what stands around it (`Expr.printed`). An
expression is written like this whenever each sequence and each choice in it has
at least two parts (`Expr.isPlain`), as they have in all that is read.

It follows that a source need not be gone through by the reader to know what it
spells. If its lexemes are those of the printed rules, whatever blanks and
comments stand between them, it is read as the grammar
(`Grammar.ofSource?_of_lexemes`); what is left to check is that every name that
was printed is looked up to what it was printed for.
-/

namespace Worksheet.Ebnf

variable {S S' T : Type}

namespace Expr

mutual

/-- Whether no sequence or choice in an expression has fewer than two parts. Of
fewer parts the reader makes no sequence and no choice (`collapse`). -/
def isPlain : Expr S → Bool
  | .literal _ | .symbol _ => true
  | .sequence parts | .choice parts => 2 ≤ parts.length && isPlainAll parts
  | .optional part | .repetition part => part.isPlain

def isPlainAll : List (Expr S) → Bool
  | [] => true
  | part :: parts => part.isPlain && isPlainAll parts

end

def grouped (tokens : List Lexeme) : List Lexeme :=
  .mark '(' :: tokens ++ [.mark ')']

mutual

/-- **The tokens of an expression** where an expression of a level is expected.
A sequence needs parentheses as a factor, and a choice everywhere but among
alternatives. -/
def printed : Level → Expr (List Char) → List Lexeme
  | _, .literal text => [.literal text]
  | _, .symbol name => [.name name]
  | _, .optional part => .mark '[' :: part.printed .alternatives ++ [.mark ']']
  | _, .repetition part => .mark '{' :: part.printed .alternatives ++ [.mark '\x7d']
  | .factor, .sequence parts => grouped ([.mark ','].intercalate (printedAll .factor parts))
  | _, .sequence parts => [.mark ','].intercalate (printedAll .factor parts)
  | .alternatives, .choice parts => [.mark '|'].intercalate (printedAll .sequence parts)
  | _, .choice parts => grouped ([.mark '|'].intercalate (printedAll .sequence parts))

def printedAll (level : Level) : List (Expr (List Char)) → List (List Lexeme)
  | [] => []
  | part :: parts => part.printed level :: printedAll level parts

end

/-- The tokens of some expressions, each with its expression, which is how
`Writes` has them. -/
def pairs (level : Level) (parts : List (Expr (List Char))) :
    List (List Lexeme × Expr (List Char)) :=
  parts.map fun part => (part.printed level, part)

theorem map_fst_pairs (level : Level) (parts : List (Expr (List Char))) :
    (pairs level parts).map Prod.fst = printedAll level parts := by
  induction parts with
  | nil => rfl
  | cons part parts ih => exact congrArg (List.cons _) ih

theorem map_snd_pairs (level : Level) (parts : List (Expr (List Char))) :
    (pairs level parts).map Prod.snd = parts := by
  rw [pairs, List.map_map]
  exact List.map_id parts

end Expr

/-- What a factor is, it is as a sequence and as the only alternative, too. -/
theorem Writes.of_factor {tokens : List Lexeme} {part : Expr (List Char)}
    (h : Writes .factor tokens part) (level : Level) : Writes level tokens part := by
  cases level with
  | factor => exact h
  | sequence => exact .single h
  | alternatives => exact .only (.single h)

namespace Expr

/-- A sequence of parts that are written is written: by itself, or in
parentheses where a factor is expected. -/
theorem writes_sequence {parts : List (Expr (List Char))} (hseveral : 2 ≤ parts.length)
    (hparts : ∀ part ∈ parts, Writes .factor (part.printed .factor) part) (level : Level) :
    Writes level ((sequence parts).printed level) (.sequence parts) := by
  have hsequence : Writes .sequence ([.mark ','].intercalate (printedAll .factor parts))
      (.sequence parts) := by
    rw [← map_fst_pairs]
    conv_rhs => rw [← map_snd_pairs .factor parts]
    exact .sequence (by rwa [pairs, List.length_map]) (List.forall_mem_map.2 hparts)
  cases level with
  | factor => exact .group (.only hsequence)
  | sequence => exact hsequence
  | alternatives => exact .only hsequence

theorem writes_choice {parts : List (Expr (List Char))} (hseveral : 2 ≤ parts.length)
    (hparts : ∀ part ∈ parts, Writes .sequence (part.printed .sequence) part) (level : Level) :
    Writes level ((choice parts).printed level) (.choice parts) := by
  have hchoice : Writes .alternatives ([.mark '|'].intercalate (printedAll .sequence parts))
      (.choice parts) := by
    rw [← map_fst_pairs]
    conv_rhs => rw [← map_snd_pairs .sequence parts]
    exact .choice (by rwa [pairs, List.length_map]) (List.forall_mem_map.2 hparts)
  cases level with
  | factor => exact .group hchoice
  | sequence => exact .single (.group hchoice)
  | alternatives => exact hchoice

mutual

/-- **An expression is written by its tokens**, at any level, if it is plain. By
recursion on the expression. -/
theorem writes_printed (e : Expr (List Char)) (h : e.isPlain = true) (level : Level) :
    Writes level (e.printed level) e := by
  cases e with
  | literal text => cases level <;> exact Writes.of_factor (.literal text) _
  | symbol name => cases level <;> exact Writes.of_factor (.name name) _
  | optional part =>
    have hpart := writes_printed part h .alternatives
    cases level <;> exact Writes.of_factor (.optional hpart) _
  | repetition part =>
    have hpart := writes_printed part h .alternatives
    cases level <;> exact Writes.of_factor (.repetition hpart) _
  | sequence parts =>
    obtain ⟨hseveral, hparts⟩ := Bool.and_eq_true_iff.1 h
    exact writes_sequence (of_decide_eq_true hseveral) (writes_printedAll parts hparts .factor)
      level
  | choice parts =>
    obtain ⟨hseveral, hparts⟩ := Bool.and_eq_true_iff.1 h
    exact writes_choice (of_decide_eq_true hseveral) (writes_printedAll parts hparts .sequence)
      level

theorem writes_printedAll (parts : List (Expr (List Char))) (h : isPlainAll parts = true)
    (level : Level) : ∀ part ∈ parts, Writes level (part.printed level) part := by
  cases parts with
  | nil => exact fun _ hpart => absurd hpart List.not_mem_nil
  | cons part parts =>
    obtain ⟨hpart, hparts⟩ := Bool.and_eq_true_iff.1 h
    exact List.forall_mem_cons.2
      ⟨writes_printed part hpart level, writes_printedAll parts hparts level⟩

end

end Expr

/-- **The tokens of some rules**, one after the other, each with its equals sign
and its semicolon. -/
def printedRules (rules : List (Rule (List Char))) : List Lexeme :=
  rules.flatMap fun rule =>
    .name rule.name :: .mark '=' :: (rule.body.printed .alternatives ++ [.mark ';'])

/-- Rules are written by their tokens, if what they stand for is plain. -/
theorem writesRules_printed {rules : List (Rule (List Char))}
    (h : ∀ rule ∈ rules, rule.body.isPlain = true) : WritesRules (printedRules rules) rules := by
  induction rules with
  | nil => exact .nil
  | cons rule rules ih =>
    obtain ⟨hbody, hrules⟩ := List.forall_mem_cons.1 h
    rw [printedRules, List.flatMap_cons, List.cons_append, List.cons_append, List.append_assoc]
    exact .cons rule.name (rule.body.writes_printed hbody .alternatives) (ih hrules)

/-- **A source is of the rules whose tokens it has**, if they are plain and have
names of their own. Only the tokens count, and not what stands between them. -/
theorem isSource_of_lexemes {source : List Char} {rules : List (Rule (List Char))}
    (hplain : ∀ rule ∈ rules, rule.body.isPlain = true) (hnames : (rules.map Rule.name).Nodup)
    (htokens : (lexemes source source).map Placed.lexeme = printedRules rules) :
    IsSource source rules := by
  have hwrites := writesRules_printed hplain
  refine ⟨printedRules rules, ?_, hwrites, hnames⟩
  rw [← htokens]
  refine laid_lexemes fun placed hplaced => hwrites.separable.isToken placed.lexeme ?_
  rw [← htokens]
  exact List.mem_map_of_mem hplaced

/-! ## Names for what they stand for

A grammar has symbols where its source has names. So its rules are printed with
a name for each symbol, and resolving undoes this if every name that was put
there is looked up to the symbol it was put for. -/

section Naming

variable {name : S → S'} {look : S' → Except GrammarError S}

mutual

/-- **What was replaced by names is looked up again**, if each name stands for
what it replaced. -/
theorem Expr.resolve_map (e : Expr S) (h : ∀ s ∈ e.names, look (name s) = .ok s) :
    (e.map name).resolve look = .ok e := by
  cases e with
  | literal text => rfl
  | symbol s => rw [Expr.map, resolve, h s List.mem_cons_self]; rfl
  | sequence parts | choice parts => rw [Expr.map, resolve, resolveAll_map parts h]; rfl
  | optional part | repetition part => rw [Expr.map, resolve, resolve_map part h]; rfl

theorem Expr.resolveAll_map (parts : List (Expr S))
    (h : ∀ s ∈ Expr.namesAll parts, look (name s) = .ok s) :
    Expr.resolveAll look (Expr.mapAll name parts) = .ok parts := by
  cases parts with
  | nil => rfl
  | cons part parts =>
    obtain ⟨hpart, hparts⟩ := List.forall_mem_append.1 h
    rw [Expr.mapAll, resolveAll, resolve_map part hpart, resolveAll_map parts hparts]
    rfl

end

theorem resolveRules_map {rules : List (Rule S)}
    (h : ∀ s ∈ namesOf rules, look (name s) = .ok s) :
    resolveRules look (rules.map (Rule.map name)) = .ok rules := by
  induction rules with
  | nil => rfl
  | cons rule rules ih =>
    rw [namesOf, List.flatMap_cons, List.forall_mem_append] at h
    rw [List.map_cons, resolveRules, Rule.map, rule.body.resolve_map h.1]
    show (resolveRules look (rules.map (Rule.map name))).map _ = _
    rw [ih h.2]
    rfl

end Naming

/-- **A grammar is read from every source that has its tokens.** The tokens are
those of its rules with names for what is in them, and each name has to be
looked up to what it is there for. -/
theorem Grammar.ofSource?_of_lexemes {terminal? : List Char → Option T} {source : List Char}
    {grammar : Grammar T} (name : Symbol T → List Char)
    (hplain : ∀ rule ∈ grammar.rules.map (Rule.map name), rule.body.isPlain = true)
    (hnames : (grammar.rules.map Rule.name).Nodup)
    (hlook : ∀ symbol ∈ namesOf grammar.rules,
      lookUp (grammar.rules.map (Rule.map name)) terminal? (name symbol) = .ok symbol)
    (htokens : (lexemes source source).map Placed.lexeme =
      printedRules (grammar.rules.map (Rule.map name))) :
    Grammar.ofSource? terminal? source = .ok grammar := by
  have hsame : (grammar.rules.map (Rule.map name)).map Rule.name = grammar.rules.map Rule.name := by
    rw [List.map_map]
    rfl
  have hread : readRules (Text.byteLength source) [] (lexemes source source)
      = .ok (grammar.rules.map (Rule.map name)) :=
    readRules_lexemes_eq_ok_iff.2 (isSource_of_lexemes hplain (hsame.symm ▸ hnames) htokens)
  rw [ofSource?, hread]
  dsimp only
  rw [resolveRules_map hlook]
  rfl

end Worksheet.Ebnf
