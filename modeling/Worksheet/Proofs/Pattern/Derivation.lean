import Mathlib.Data.List.Infix
import Worksheet.Pattern.Grammar
import Worksheet.Proofs.Pattern.Heads

/-!
# What a grammar derives

The rules of a grammar can be taken as a definition and not as instructions: any
alternative of a choice may be taken, an optional part may be there or not, and
a repetition may stop after any number of rounds. `Derives` says which
beginnings of a text an expression derives when it is read so.

Reading a text by instructions yields nodes as well, and `Parses` says which
nodes belong to a derivation. Whatever an evaluation matches it parses
(`parses_of_evaluateRule`), so what is true of all derivations and their nodes,
by induction on them, is true of every evaluation, to whatever depth it goes and
whatever it tried before.
-/

namespace Worksheet.Pattern

open Ebnf

variable {grammar : Grammar Terminal}

/-- **An expression derives the beginning of a text**, up to a rest. Each way of
making an expression has the constructors that its meaning as a definition gives
it; no constructor refers to what another alternative would do. -/
inductive Derives (grammar : Grammar Terminal) :
    Expr (Symbol Terminal) → List Char → List Char → Prop
  | literal {text rest : List Char} : Derives grammar (.literal text) (text ++ rest) rest
  | terminal {terminal : Terminal} {input rest : List Char} {kind : LeafKind}
      (hscan : terminal.scan? input = some (kind, rest)) :
      Derives grammar (.symbol (.terminal terminal)) input rest
  | rule {index : Nat} {rule : Rule (Symbol Terminal)} {input rest : List Char}
      (hrule : grammar.rules[index]? = some rule) (hbody : Derives grammar rule.body input rest) :
      Derives grammar (.symbol (.rule index)) input rest
  | nil {input : List Char} : Derives grammar (.sequence []) input input
  | cons {part : Expr (Symbol Terminal)} {parts : List (Expr (Symbol Terminal))}
      {input mid rest : List Char} (hpart : Derives grammar part input mid)
      (hparts : Derives grammar (.sequence parts) mid rest) :
      Derives grammar (.sequence (part :: parts)) input rest
  | choice {part : Expr (Symbol Terminal)} {parts : List (Expr (Symbol Terminal))}
      {input rest : List Char} (hmem : part ∈ parts) (hpart : Derives grammar part input rest) :
      Derives grammar (.choice parts) input rest
  | absent {part : Expr (Symbol Terminal)} {input : List Char} :
      Derives grammar (.optional part) input input
  | present {part : Expr (Symbol Terminal)} {input rest : List Char}
      (hpart : Derives grammar part input rest) : Derives grammar (.optional part) input rest
  | stop {part : Expr (Symbol Terminal)} {input : List Char} :
      Derives grammar (.repetition part) input input
  | round {part : Expr (Symbol Terminal)} {input mid rest : List Char}
      (hpart : Derives grammar part input mid)
      (hmore : Derives grammar (.repetition part) mid rest) :
      Derives grammar (.repetition part) input rest

/-- **An expression parses the beginning of a text**: it derives it, and these
are the nodes that come of it. A rule hands its nodes on (`splice`) or puts them
under one node (`node`), as `shapeOf?` says for its name. -/
inductive Parses (grammar : Grammar Terminal) :
    Expr (Symbol Terminal) → List Char → List Token → List Char → Prop
  | literal {text rest : List Char} :
      Parses grammar (.literal text) (text ++ rest) [.leaf (.textLiteral text) text] rest
  | terminal {terminal : Terminal} {input rest : List Char} {kind : LeafKind}
      (hscan : terminal.scan? input = some (kind, rest)) :
      Parses grammar (.symbol (.terminal terminal)) input
        [.leaf kind (Text.before input rest)] rest
  | splice {index : Nat} {rule : Rule (Symbol Terminal)} {input rest : List Char}
      {tokens : List Token} (hrule : grammar.rules[index]? = some rule)
      (hshape : shapeOf? rule.name = none) (hbody : Parses grammar rule.body input tokens rest) :
      Parses grammar (.symbol (.rule index)) input tokens rest
  | node {index : Nat} {rule : Rule (Symbol Terminal)} {input rest : List Char}
      {tokens : List Token} {shape : Shape} {token : Token}
      (hrule : grammar.rules[index]? = some rule) (hshape : shapeOf? rule.name = some shape)
      (hbuild : shape.build? tokens = some token)
      (hbody : Parses grammar rule.body input tokens rest) :
      Parses grammar (.symbol (.rule index)) input [token] rest
  | nil {input : List Char} : Parses grammar (.sequence []) input [] input
  | cons {part : Expr (Symbol Terminal)} {parts : List (Expr (Symbol Terminal))}
      {input mid rest : List Char} {tokens more : List Token}
      (hpart : Parses grammar part input tokens mid)
      (hparts : Parses grammar (.sequence parts) mid more rest) :
      Parses grammar (.sequence (part :: parts)) input (tokens ++ more) rest
  | choice {part : Expr (Symbol Terminal)} {parts : List (Expr (Symbol Terminal))}
      {input rest : List Char} {tokens : List Token} (hmem : part ∈ parts)
      (hpart : Parses grammar part input tokens rest) :
      Parses grammar (.choice parts) input tokens rest
  | absent {part : Expr (Symbol Terminal)} {input : List Char} :
      Parses grammar (.optional part) input [] input
  | present {part : Expr (Symbol Terminal)} {input rest : List Char} {tokens : List Token}
      (hpart : Parses grammar part input tokens rest) :
      Parses grammar (.optional part) input tokens rest
  | stop {part : Expr (Symbol Terminal)} {input : List Char} :
      Parses grammar (.repetition part) input [] input
  | round {part : Expr (Symbol Terminal)} {input mid rest : List Char}
      {tokens more : List Token} (hpart : Parses grammar part input tokens mid)
      (hmore : Parses grammar (.repetition part) mid more rest) :
      Parses grammar (.repetition part) input (tokens ++ more) rest

theorem Parses.derives {e : Expr (Symbol Terminal)} {input rest : List Char}
    {tokens : List Token} (h : Parses grammar e input tokens rest) :
    Derives grammar e input rest := by
  induction h with
  | literal => exact .literal
  | terminal hscan => exact .terminal hscan
  | splice hrule hshape hbody ih => exact .rule hrule ih
  | node hrule hshape hbuild hbody ih => exact .rule hrule ih
  | nil => exact .nil
  | cons hpart hparts ihpart ihparts => exact .cons ihpart ihparts
  | choice hmem hpart ih => exact .choice hmem ih
  | absent => exact .absent
  | present hpart ih => exact .present ih
  | stop => exact .stop
  | round hpart hmore ihpart ihmore => exact .round ihpart ihmore

/-- **What is left is the end of the text**, so the length of the rest bounds
every recursion. -/
theorem Derives.suffix {e : Expr (Symbol Terminal)} {input rest : List Char}
    (h : Derives grammar e input rest) : rest <:+ input := by
  induction h with
  | literal => exact List.suffix_append _ _
  | terminal hscan =>
    obtain ⟨head, -, tail, rfl, hrest, -⟩ := Terminal.begins_of_scan? hscan
    exact hrest.trans (List.suffix_cons _ _)
  | rule hrule hbody ih => exact ih
  | nil => exact List.suffix_refl _
  | cons hpart hparts ihpart ihparts => exact ihparts.trans ihpart
  | choice hmem hpart ih => exact ih
  | absent => exact List.suffix_refl _
  | present hpart ih => exact ih
  | stop => exact List.suffix_refl _
  | round hpart hmore ihpart ihmore => exact ihmore.trans ihpart

/-! ## Evaluations

Soundness is the easy direction, as an evaluation never takes what the grammar
does not offer. It needs nothing of the grammar, while the other direction does
(`Finds`). -/

/-- **An evaluation takes the beginning of a text** by an expression, up to a
rest. -/
def Takes (call : Nat → List Char → Outcome) (e : Expr (Symbol Terminal))
    (input rest : List Char) : Prop :=
  ∃ tokens, (evaluate call e input).matched = some (tokens, rest)

/-- What an outcome matches is parsed. An outcome that matches nothing is sound,
whatever it has tried. -/
def Outcome.Sound (grammar : Grammar Terminal) (e : Expr (Symbol Terminal)) (input : List Char)
    (outcome : Outcome) : Prop :=
  ∀ tokens rest, outcome.matched = some (tokens, rest) → Parses grammar e input tokens rest

theorem Outcome.sound_fail {e : Expr (Symbol Terminal)} {input : List Char} :
    (Outcome.fail input).Sound grammar e input :=
  nofun

/-- Rounds of a step are parsed, by induction on the text that is left. -/
theorem Outcome.sound_repeatWhile {part : Expr (Symbol Terminal)} {step : List Char → Outcome}
    (hstep : ∀ input, (step input).Sound grammar part input) (input : List Char) :
    (repeatWhile step input).Sound grammar (.repetition part) input := by
  fun_induction repeatWhile step input with
  | case1 input tokens rest hmatched hless ih =>
    intro all final h
    obtain ⟨⟨more, after⟩, hmore, heq⟩ := Option.map_eq_some_iff.1 h
    obtain ⟨rfl, rfl⟩ := Prod.mk.inj heq
    exact .round (hstep input _ _ hmatched) (ih _ _ hmore)
  | case2 input tokens rest hmatched hless =>
    -- a round that does not move on takes nothing, and is the last one
    intro all final h
    obtain ⟨rfl, rfl⟩ := Prod.mk.inj (Option.some.inj h)
    have hparses := hstep _ _ _ hmatched
    have hrest : rest = input := by
      have hsuffix := hparses.derives.suffix
      exact hsuffix.eq_of_length (Nat.le_antisymm hsuffix.length_le (Nat.le_of_not_lt hless))
    subst hrest
    exact List.append_nil tokens ▸ .round hparses .stop
  | case3 input hmatched =>
    intro all final h
    obtain ⟨rfl, rfl⟩ := Prod.mk.inj (Option.some.inj h)
    exact .stop

mutual

/-- What is evaluated is parsed, if the rules it calls are. The three mutual
lemmas follow the three mutual functions of the evaluation. -/
theorem Outcome.sound_evaluate {call : Nat → List Char → Outcome}
    (hcall : ∀ index input, (call index input).Sound grammar (.symbol (.rule index)) input) :
    ∀ (e : Expr (Symbol Terminal)) (input : List Char),
      (evaluate call e input).Sound grammar e input
  | .literal text, input => by
    rw [evaluate]
    split
    · rename_i rest hdrop
      intro tokens final h
      obtain ⟨rfl, rfl⟩ := Prod.mk.inj (Option.some.inj h)
      rw [Text.drop?_eq_some_iff.1 hdrop]
      exact .literal
    · exact sound_fail
  | .symbol (.terminal terminal), input => by
    rw [evaluate]
    split
    · rename_i kind rest hscan
      intro tokens final h
      obtain ⟨rfl, rfl⟩ := Prod.mk.inj (Option.some.inj h)
      exact .terminal hscan
    · exact sound_fail
  | .symbol (.rule index), input => by
    rw [evaluate]
    exact hcall index input
  | .sequence parts, input => by
    rw [evaluate]
    exact sound_evaluateAll hcall parts input
  | .choice parts, input => by
    rw [evaluate]
    intro tokens rest h
    obtain ⟨part, hmem, hpart⟩ := sound_evaluateFirst hcall parts input tokens rest h
    exact .choice hmem hpart
  | .optional part, input => by
    rw [evaluate]
    intro tokens rest h
    -- an optional part that does not match leaves the input as it is
    cases hpart : (evaluate call part input).matched with
    | none =>
      rw [hpart] at h
      obtain ⟨rfl, rfl⟩ := Prod.mk.inj (Option.some.inj h)
      exact .absent
    | some taken =>
      rw [hpart] at h
      exact .present (sound_evaluate hcall part input tokens rest (hpart.trans h))
  | .repetition part, input => by
    rw [evaluate]
    exact sound_repeatWhile (sound_evaluate hcall part) input

theorem Outcome.sound_evaluateAll {call : Nat → List Char → Outcome}
    (hcall : ∀ index input, (call index input).Sound grammar (.symbol (.rule index)) input) :
    ∀ (parts : List (Expr (Symbol Terminal))) (input : List Char),
      (evaluateAll call parts input).Sound grammar (.sequence parts) input
  | [], input => by
    intro tokens rest h
    obtain ⟨rfl, rfl⟩ := Prod.mk.inj (Option.some.inj h)
    exact .nil
  | part :: parts, input => by
    rw [evaluateAll]
    intro tokens rest h
    split at h
    · rename_i taken mid hpart
      obtain ⟨⟨more, after⟩, hmore, heq⟩ := Option.map_eq_some_iff.1 h
      obtain ⟨rfl, rfl⟩ := Prod.mk.inj heq
      exact .cons (sound_evaluate hcall part input _ _ hpart)
        (sound_evaluateAll hcall parts mid _ _ hmore)
    · rename_i hnone
      rw [hnone] at h
      cases h

theorem Outcome.sound_evaluateFirst {call : Nat → List Char → Outcome}
    (hcall : ∀ index input, (call index input).Sound grammar (.symbol (.rule index)) input) :
    ∀ (parts : List (Expr (Symbol Terminal))) (input : List Char) (tokens : List Token)
      (rest : List Char), (evaluateFirst call parts input).matched = some (tokens, rest) →
        ∃ part ∈ parts, Parses grammar part input tokens rest
  | [], _, _, _, h => by cases h
  | part :: parts, input, tokens, rest, h => by
    rw [evaluateFirst] at h
    split at h
    · exact ⟨part, List.mem_cons_self, sound_evaluate hcall part input _ _ h⟩
    · obtain ⟨other, hmem, hother⟩ := sound_evaluateFirst hcall parts input tokens rest h
      exact ⟨other, List.mem_cons_of_mem _ hmem, hother⟩

end

/-- The nodes of a rule's expression are put into the tree as its name asks. -/
theorem Outcome.Sound.shaped {index : Nat} {rule : Rule (Symbol Terminal)} {input : List Char}
    {outcome : Outcome} (hrule : grammar.rules[index]? = some rule)
    (h : outcome.Sound grammar rule.body input) :
    (shaped rule.name outcome).Sound grammar (.symbol (.rule index)) input := by
  intro tokens rest hmatched
  unfold Pattern.shaped at hmatched
  split at hmatched
  · exact .splice hrule ‹_› (h _ _ hmatched)
  · rename_i shape hshape
    obtain ⟨⟨taken, after⟩, htaken, hbuilt⟩ := Option.bind_eq_some_iff.1 hmatched
    obtain ⟨token, hbuild, heq⟩ := Option.map_eq_some_iff.1 hbuilt
    obtain ⟨rfl, rfl⟩ := Prod.mk.inj heq
    exact .node hrule hshape hbuild (h _ _ htaken)

/-- **What a rule matches it parses**, to whatever depth it is evaluated: by
induction on the depth, with `Outcome.sound_evaluate` for the expression of the
rule. -/
theorem parses_of_evaluateRule (grammar : Grammar Terminal) (depth index : Nat)
    (input : List Char) :
    (evaluateRule grammar depth index input).Sound grammar (.symbol (.rule index)) input := by
  induction depth generalizing index input with
  | zero => exact Outcome.sound_fail
  | succ depth ih =>
    rw [evaluateRule]
    split
    · exact Outcome.sound_fail
    · rename_i rule hrule
      exact (Outcome.sound_evaluate ih rule.body input).shaped hrule

end Worksheet.Pattern
