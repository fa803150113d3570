import Worksheet.Proofs.Pattern.Completeness
import Worksheet.Proofs.Pattern.Depth

/-!
# Evaluation comes to an end

Reading a text by a grammar is given here without a depth, as the evaluations
that end (`Evaluates`), and with the evaluations that each of them opens on its
way (`Opens`). What is opened stands at a smaller position than what opens it,
and never further to the front of the text (`Opens.position_lt`,
`Opens.suffix`), in every grammar whose rules are ranked (`Ranked`); a round of
a repetition moves on or is the last one (`Evaluates.repetition`).

So every evaluation ends (`exists_evaluates`), and none is nested deeper than
its own position (`length_le_position`), whatever the text. For the grammar of
patterns that is `reading_ends`; there the evaluation to any depth past the
layers comes to the same (`evaluates_standard_iff`).

The measure is `Expr.position`: an expression stands above its parts, and a rule
above its expression by the rank it is given. A sequence and a choice stand
above each of their parts by one however long they are, so positions are bounded
by how deep the grammar nests, and not by its size.
-/

namespace Worksheet

namespace Ebnf

variable {T : Type} {rank : ℕ → ℕ}

mutual

/-- The position of an expression above those in it, from the ranks of the
rules. -/
def Expr.position (rank : ℕ → ℕ) : Expr (Symbol T) → ℕ
  | .literal _ => 0
  | .symbol (.terminal _) => 0
  | .symbol (.rule index) => rank index
  | .sequence parts | .choice parts => positionAbove rank parts
  | .optional part | .repetition part => part.position rank + 1

def positionAbove (rank : ℕ → ℕ) : List (Expr (Symbol T)) → ℕ
  | [] => 0
  | part :: parts => max (part.position rank + 1) (positionAbove rank parts)

end

/-- **The rules of a grammar are ranked**: each stands above its expression. A
rule that called itself could have no rank. -/
def Grammar.Ranked (grammar : Grammar T) (rank : ℕ → ℕ) : Prop :=
  ∀ entry ∈ grammar.rules.zipIdx, entry.1.body.position rank < rank entry.2

/-- **A grammar is closed**: the rules that are called are there. -/
def Grammar.Closed (grammar : Grammar T) : Prop :=
  ∀ rule ∈ grammar.rules, ∀ index ∈ rule.body.calls, index < grammar.rules.length

theorem Grammar.Ranked.position_lt {grammar : Grammar T} (h : grammar.Ranked rank) {index : ℕ}
    {rule : Rule (Symbol T)} (hrule : grammar.rules[index]? = some rule) :
    rule.body.position rank < (Expr.symbol (.rule index) : Expr (Symbol T)).position rank := by
  rw [Expr.position]
  exact h (rule, index) (List.mk_mem_zipIdx_iff_getElem?.2 hrule)

theorem position_lt_cons {part : Expr (Symbol T)} {parts : List (Expr (Symbol T))} :
    part.position rank < positionAbove rank (part :: parts) := by
  rw [positionAbove]
  exact lt_max_of_lt_left (Nat.lt_succ_self _)

theorem positionAbove_le_cons {part : Expr (Symbol T)} {parts : List (Expr (Symbol T))} :
    positionAbove rank parts ≤ positionAbove rank (part :: parts) := by
  rw [positionAbove]
  exact le_max_right _ _

theorem position_lt_of_mem {part : Expr (Symbol T)} {parts : List (Expr (Symbol T))}
    (h : part ∈ parts) : part.position rank < positionAbove rank parts := by
  induction parts with
  | nil => cases h
  | cons first parts ih =>
    rcases List.mem_cons.1 h with rfl | h
    · exact position_lt_cons
    · exact (ih h).trans_le positionAbove_le_cons

theorem calls_subset_of_mem {part : Expr (Symbol T)} {parts : List (Expr (Symbol T))}
    (h : part ∈ parts) : part.calls ⊆ callsOf parts := by
  induction parts with
  | nil => cases h
  | cons first parts ih =>
    rw [callsOf]
    rcases List.mem_cons.1 h with rfl | h
    · exact List.subset_append_left _ _
    · exact List.Subset.trans (ih h) (List.subset_append_right _ _)

end Ebnf

namespace Pattern

open Ebnf

variable {grammar : Grammar Terminal} {rank : ℕ → ℕ} {e e' : Expr (Symbol Terminal)}
  {part : Expr (Symbol Terminal)} {parts : List (Expr (Symbol Terminal))}
  {input input' rest : List Char} {outcome : Outcome}

/-! ## Evaluations that end -/

/-- **An evaluation ends** with an outcome: a repetition makes round after
round, up to one that does not match or does not move on. There is no depth
here, and nothing that stands for an evaluation that does not end. The
constructors are the branches of the evaluation, in their order. -/
inductive Evaluates (grammar : Grammar Terminal) :
    Expr (Symbol Terminal) → List Char → Outcome → Prop
  | literal {text input rest : List Char} (h : Text.drop? text input = some rest) :
      Evaluates grammar (.literal text) input (.success [.leaf (.textLiteral text) text] rest)
  | noLiteral {text input : List Char} (h : Text.drop? text input = none) :
      Evaluates grammar (.literal text) input (.fail input)
  | terminal {terminal : Terminal} {input rest : List Char} {kind : LeafKind}
      (h : terminal.scan? input = some (kind, rest)) :
      Evaluates grammar (.symbol (.terminal terminal)) input
        (.success [.leaf kind (Text.before input rest)] rest)
  | noTerminal {terminal : Terminal} {input : List Char} (h : terminal.scan? input = none) :
      Evaluates grammar (.symbol (.terminal terminal)) input (.fail input)
  | rule {index : ℕ} {rule : Rule (Symbol Terminal)} {input : List Char} {outcome : Outcome}
      (hrule : grammar.rules[index]? = some rule)
      (hbody : Evaluates grammar rule.body input outcome) :
      Evaluates grammar (.symbol (.rule index)) input (shaped rule.name outcome)
  | done {input : List Char} : Evaluates grammar (.sequence []) input (.success [] input)
  | later {part : Expr (Symbol Terminal)} {parts : List (Expr (Symbol Terminal))}
      {input rest : List Char} {outcome next : Outcome} {tokens : List Token}
      (hpart : Evaluates grammar part input outcome) (h : outcome.matched = some (tokens, rest))
      (hparts : Evaluates grammar (.sequence parts) rest next) :
      Evaluates grammar (.sequence (part :: parts)) input (next.after tokens outcome.reach)
  | broken {part : Expr (Symbol Terminal)} {parts : List (Expr (Symbol Terminal))}
      {input : List Char} {outcome : Outcome} (hpart : Evaluates grammar part input outcome)
      (h : outcome.matched = none) : Evaluates grammar (.sequence (part :: parts)) input outcome
  | exhausted {input : List Char} : Evaluates grammar (.choice []) input (.fail input)
  | chosen {part : Expr (Symbol Terminal)} {parts : List (Expr (Symbol Terminal))}
      {input rest : List Char} {outcome : Outcome} {tokens : List Token}
      (hpart : Evaluates grammar part input outcome) (h : outcome.matched = some (tokens, rest)) :
      Evaluates grammar (.choice (part :: parts)) input outcome
  | passed {part : Expr (Symbol Terminal)} {parts : List (Expr (Symbol Terminal))}
      {input : List Char} {outcome next : Outcome} (hpart : Evaluates grammar part input outcome)
      (h : outcome.matched = none) (hparts : Evaluates grammar (.choice parts) input next) :
      Evaluates grammar (.choice (part :: parts)) input (next.reaching outcome.reach)
  | optional {part : Expr (Symbol Terminal)} {input : List Char} {outcome : Outcome}
      (hpart : Evaluates grammar part input outcome) :
      Evaluates grammar (.optional part) input
        ⟨some (outcome.matched.getD ([], input)), outcome.reach⟩
  | round {part : Expr (Symbol Terminal)} {input rest : List Char} {outcome next : Outcome}
      {tokens : List Token} (hpart : Evaluates grammar part input outcome)
      (h : outcome.matched = some (tokens, rest)) (hmoves : rest ≠ input)
      (hmore : Evaluates grammar (.repetition part) rest next) :
      Evaluates grammar (.repetition part) input (next.after tokens outcome.reach)
  | still {part : Expr (Symbol Terminal)} {input : List Char} {outcome : Outcome}
      {tokens : List Token} (hpart : Evaluates grammar part input outcome)
      (h : outcome.matched = some (tokens, input)) :
      Evaluates grammar (.repetition part) input ⟨some (tokens, input), outcome.reach⟩
  | stop {part : Expr (Symbol Terminal)} {input : List Char} {outcome : Outcome}
      (hpart : Evaluates grammar part input outcome) (h : outcome.matched = none) :
      Evaluates grammar (.repetition part) input ⟨some ([], input), outcome.reach⟩

theorem exists_of_after {next : Outcome} {tokens all : List Token} {reach : ℕ}
    (h : (next.after tokens reach).matched = some (all, rest)) :
    ∃ more, next.matched = some (more, rest) := by
  obtain ⟨⟨more, after⟩, hmore, heq⟩ := Option.map_eq_some_iff.1 h
  obtain ⟨-, rfl⟩ := Prod.mk.inj heq
  exact ⟨more, hmore⟩

theorem exists_of_shaped {name : List Char} {tokens : List Token}
    (h : (shaped name outcome).matched = some (tokens, rest)) :
    ∃ taken, outcome.matched = some (taken, rest) := by
  unfold shaped at h
  split at h
  · exact ⟨tokens, h⟩
  · obtain ⟨⟨taken, after⟩, htaken, hbuilt⟩ := Option.bind_eq_some_iff.1 h
    obtain ⟨token, -, heq⟩ := Option.map_eq_some_iff.1 hbuilt
    obtain ⟨-, rfl⟩ := Prod.mk.inj heq
    exact ⟨taken, htaken⟩

/-- **What an evaluation leaves** is the end of its text. -/
theorem Evaluates.suffix (h : Evaluates grammar e input outcome) :
    ∀ tokens rest, outcome.matched = some (tokens, rest) → rest <:+ input := by
  induction h with
  | literal hdrop =>
    intro tokens rest hmatched
    obtain ⟨-, rfl⟩ := Prod.mk.inj (Option.some.inj hmatched)
    exact ⟨_, (Text.drop?_eq_some_iff.1 hdrop).symm⟩
  | terminal hscan =>
    intro tokens rest hmatched
    obtain ⟨-, rfl⟩ := Prod.mk.inj (Option.some.inj hmatched)
    obtain ⟨head, -, tail, rfl, hrest, -⟩ := Terminal.begins_of_scan? hscan
    exact hrest.trans (List.suffix_cons _ _)
  | noLiteral | noTerminal | exhausted => exact nofun
  | rule hrule hbody ih =>
    intro tokens rest hmatched
    obtain ⟨taken, htaken⟩ := exists_of_shaped hmatched
    exact ih _ _ htaken
  | done =>
    intro tokens rest hmatched
    obtain ⟨-, rfl⟩ := Prod.mk.inj (Option.some.inj hmatched)
    exact List.suffix_refl _
  | later hpart hmatched hparts ihpart ihparts =>
    intro tokens rest hall
    -- what the later parts leave is a suffix of what the first one left
    obtain ⟨more, hmore⟩ := exists_of_after hall
    exact (ihparts _ _ hmore).trans (ihpart _ _ hmatched)
  | broken hpart hnone ih => exact ih
  | chosen hpart hmatched ih => exact ih
  | passed hpart hnone hparts ihpart ihparts => exact ihparts
  | @optional part input outcome hpart ih =>
    intro tokens rest hall
    cases hmatched : outcome.matched with
    | none =>
      rw [hmatched] at hall
      obtain ⟨-, rfl⟩ := Prod.mk.inj (Option.some.inj hall)
      exact List.suffix_refl _
    | some taken =>
      rw [hmatched] at hall
      exact ih _ _ (hmatched.trans hall)
  | round hpart hmatched hmoves hmore ihpart ihmore =>
    intro tokens rest hall
    obtain ⟨more, hmore⟩ := exists_of_after hall
    exact (ihmore _ _ hmore).trans (ihpart _ _ hmatched)
  | still | stop =>
    intro tokens rest hall
    obtain ⟨-, rfl⟩ := Prod.mk.inj (Option.some.inj hall)
    exact List.suffix_refl _

/-- What an evaluation leaves is less than its text, or all of it. -/
theorem Evaluates.length_lt (h : Evaluates grammar e input outcome) {tokens : List Token}
    (hmatched : outcome.matched = some (tokens, rest)) (hmoves : rest ≠ input) :
    rest.length < input.length := by
  have hsuffix := h.suffix _ _ hmatched
  exact lt_of_le_of_ne hsuffix.length_le fun heq => hmoves (hsuffix.eq_of_length heq)

/-- **A round of a repetition moves on or is the last one.** In the first case
the repetition comes to what it comes to behind the round; in the second it ends
with what the round has matched, if anything. -/
theorem Evaluates.repetition (h : Evaluates grammar part input outcome) :
    (∃ tokens rest, outcome.matched = some (tokens, rest) ∧ rest.length < input.length ∧
        ∀ next, Evaluates grammar (.repetition part) rest next →
          Evaluates grammar (.repetition part) input (next.after tokens outcome.reach)) ∨
      Evaluates grammar (.repetition part) input
        ⟨some (outcome.matched.getD ([], input)), outcome.reach⟩ := by
  cases hmatched : outcome.matched with
  | none => exact .inr (.stop h hmatched)
  | some taken =>
    obtain ⟨tokens, rest⟩ := taken
    by_cases hmoves : rest = input
    · subst hmoves
      exact .inr (.still h hmatched)
    · exact .inl ⟨tokens, rest, rfl, h.length_lt hmatched hmoves,
        fun next hnext => .round h hmatched hmoves hnext⟩

/-! ## Evaluations that are opened -/

/-- **An evaluation opens another one on its way**: that of a rule's expression,
of a part after those before it matched, of an alternative after those before it
did not, or of a round after those before it moved on. Evaluations that are made
one after the other are not nested: each is opened by the sequence, choice or
repetition as a whole. -/
inductive Opens (grammar : Grammar Terminal) : Expr (Symbol Terminal) → List Char →
    Expr (Symbol Terminal) → List Char → Prop
  | rule {index : ℕ} {rule : Rule (Symbol Terminal)} {input : List Char}
      (hrule : grammar.rules[index]? = some rule) :
      Opens grammar (.symbol (.rule index)) input rule.body input
  | part {part : Expr (Symbol Terminal)} {parts : List (Expr (Symbol Terminal))}
      {input : List Char} : Opens grammar (.sequence (part :: parts)) input part input
  | later {part e' : Expr (Symbol Terminal)} {parts : List (Expr (Symbol Terminal))}
      {input rest input' : List Char} {outcome : Outcome} {tokens : List Token}
      (hpart : Evaluates grammar part input outcome) (h : outcome.matched = some (tokens, rest))
      (hopens : Opens grammar (.sequence parts) rest e' input') :
      Opens grammar (.sequence (part :: parts)) input e' input'
  | alternative {part : Expr (Symbol Terminal)} {parts : List (Expr (Symbol Terminal))}
      {input : List Char} : Opens grammar (.choice (part :: parts)) input part input
  | passed {part e' : Expr (Symbol Terminal)} {parts : List (Expr (Symbol Terminal))}
      {input input' : List Char} {outcome : Outcome}
      (hpart : Evaluates grammar part input outcome) (h : outcome.matched = none)
      (hopens : Opens grammar (.choice parts) input e' input') :
      Opens grammar (.choice (part :: parts)) input e' input'
  | optional {part : Expr (Symbol Terminal)} {input : List Char} :
      Opens grammar (.optional part) input part input
  | repetition {part : Expr (Symbol Terminal)} {input : List Char} :
      Opens grammar (.repetition part) input part input
  | round {part e' : Expr (Symbol Terminal)} {input rest input' : List Char} {outcome : Outcome}
      {tokens : List Token} (hpart : Evaluates grammar part input outcome)
      (h : outcome.matched = some (tokens, rest)) (hmoves : rest ≠ input)
      (hopens : Opens grammar (.repetition part) rest e' input') :
      Opens grammar (.repetition part) input e' input'

/-- **What is opened stands later** in the text, or at the same place. -/
theorem Opens.suffix (h : Opens grammar e input e' input') : input' <:+ input := by
  induction h with
  | rule | part | alternative | optional | repetition => exact List.suffix_refl _
  | later hpart hmatched hopens ih => exact ih.trans (hpart.suffix _ _ hmatched)
  | passed hpart hnone hopens ih => exact ih
  | round hpart hmatched hmoves hopens ih => exact ih.trans (hpart.suffix _ _ hmatched)

/-- **What is opened stands at a smaller position**, by cases on what opens it. -/
theorem Opens.position_lt (hranked : grammar.Ranked rank) (h : Opens grammar e input e' input') :
    e'.position rank < e.position rank := by
  induction h with
  | rule hrule => exact hranked.position_lt hrule
  | part | alternative =>
    rw [Expr.position]
    exact position_lt_cons
  | later hpart hmatched hopens ih =>
    rw [Expr.position] at ih ⊢
    exact ih.trans_le positionAbove_le_cons
  | passed hpart hnone hopens ih =>
    rw [Expr.position] at ih ⊢
    exact ih.trans_le positionAbove_le_cons
  | optional | repetition =>
    rw [Expr.position]
    exact Nat.lt_succ_self _
  | round hpart hmatched hmoves hopens ih => exact ih

/-- **No evaluations are nested deeper** than the position of the first one,
whatever the text: positions go down along the chain (`Opens.position_lt`). -/
theorem length_le_position (hranked : grammar.Ranked rank)
    (nested : List (Expr (Symbol Terminal) × List Char))
    (h : List.IsChain (fun s s' => Opens grammar s.1 s.2 s'.1 s'.2) ((e, input) :: nested)) :
    nested.length ≤ e.position rank := by
  induction nested generalizing e input with
  | nil => exact Nat.zero_le _
  | cons opened nested ih =>
    obtain ⟨hopens, hrest⟩ := List.isChain_cons_cons.1 h
    exact Nat.succ_le_of_lt ((ih hrest).trans_lt (hopens.position_lt hranked))

/-! ## Every evaluation ends -/

theorem exists_evaluates_sequence
    (h : ∀ part ∈ parts, ∀ input, ∃ outcome, Evaluates grammar part input outcome)
    (input : List Char) : ∃ outcome, Evaluates grammar (.sequence parts) input outcome := by
  induction parts generalizing input with
  | nil => exact ⟨_, .done⟩
  | cons part parts ih =>
    obtain ⟨hpart, hparts⟩ := List.forall_mem_cons.1 h
    obtain ⟨outcome, houtcome⟩ := hpart input
    cases hmatched : outcome.matched with
    | none => exact ⟨_, .broken houtcome hmatched⟩
    | some taken =>
      obtain ⟨next, hnext⟩ := ih hparts taken.2
      exact ⟨_, .later houtcome hmatched hnext⟩

theorem exists_evaluates_choice
    (h : ∀ part ∈ parts, ∀ input, ∃ outcome, Evaluates grammar part input outcome)
    (input : List Char) : ∃ outcome, Evaluates grammar (.choice parts) input outcome := by
  induction parts with
  | nil => exact ⟨_, .exhausted⟩
  | cons part parts ih =>
    obtain ⟨hpart, hparts⟩ := List.forall_mem_cons.1 h
    obtain ⟨outcome, houtcome⟩ := hpart input
    cases hmatched : outcome.matched with
    | none =>
      obtain ⟨next, hnext⟩ := ih hparts
      exact ⟨_, .passed houtcome hmatched hnext⟩
    | some taken => exact ⟨_, .chosen houtcome hmatched⟩

/-- Rounds that move on come to an end, since the text does: by induction on its
length. -/
theorem exists_evaluates_repetition (h : ∀ input, ∃ outcome, Evaluates grammar part input outcome)
    (input : List Char) : ∃ outcome, Evaluates grammar (.repetition part) input outcome := by
  induction hlength : input.length using Nat.strong_induction_on generalizing input with
  | _ length ih =>
    obtain ⟨outcome, houtcome⟩ := h input
    rcases houtcome.repetition with ⟨tokens, rest, -, hless, hround⟩ | hlast
    · obtain ⟨next, hnext⟩ := ih rest.length (hlength ▸ hless) rest rfl
      exact ⟨_, hround next hnext⟩
    · exact ⟨_, hlast⟩

/-- **Every evaluation ends**, in a grammar that is closed and ranked. The
induction is on a bound for the position, so that it goes from a rule to its
expression as well. -/
theorem exists_evaluates (hranked : grammar.Ranked rank) (hclosed : grammar.Closed) (bound : ℕ) :
    ∀ e : Expr (Symbol Terminal), e.position rank < bound →
      (∀ index ∈ e.calls, index < grammar.rules.length) →
      ∀ input, ∃ outcome, Evaluates grammar e input outcome := by
  induction bound with
  | zero => exact fun e h => absurd h (Nat.not_lt_zero _)
  | succ bound ih =>
    intro e hposition hcalls input
    match e with
    | .literal text =>
      cases hdrop : Text.drop? text input with
      | none => exact ⟨_, .noLiteral hdrop⟩
      | some rest => exact ⟨_, .literal hdrop⟩
    | .symbol (.terminal terminal) =>
      cases hscan : terminal.scan? input with
      | none => exact ⟨_, .noTerminal hscan⟩
      | some found => exact ⟨_, .terminal hscan⟩
    | .symbol (.rule index) =>
      -- a call goes to a rule of smaller rank, so the induction, on the
      -- position of the expression, covers its body
      have hindex : index < grammar.rules.length := hcalls index (List.mem_singleton_self index)
      have hrule := List.getElem?_eq_getElem hindex
      obtain ⟨outcome, houtcome⟩ := ih _
        ((hranked.position_lt hrule).trans_le (Nat.le_of_lt_succ hposition))
        (hclosed _ (List.mem_of_getElem? hrule)) input
      exact ⟨_, .rule hrule houtcome⟩
    | .sequence parts =>
      rw [Expr.position] at hposition
      exact exists_evaluates_sequence (fun part hpart => ih part
        ((position_lt_of_mem hpart).trans_le (Nat.le_of_lt_succ hposition))
        fun index hindex => hcalls index (calls_subset_of_mem hpart hindex)) input
    | .choice parts =>
      rw [Expr.position] at hposition
      exact exists_evaluates_choice (fun part hpart => ih part
        ((position_lt_of_mem hpart).trans_le (Nat.le_of_lt_succ hposition))
        fun index hindex => hcalls index (calls_subset_of_mem hpart hindex)) input
    | .optional part =>
      rw [Expr.position] at hposition
      obtain ⟨outcome, houtcome⟩ := ih part (Nat.lt_of_succ_lt_succ hposition) hcalls input
      exact ⟨_, .optional houtcome⟩
    | .repetition part =>
      rw [Expr.position] at hposition
      exact exists_evaluates_repetition (ih part (Nat.lt_of_succ_lt_succ hposition) hcalls) input

/-- **The evaluation to a depth comes to the same**, past the layers of the
rules: by induction on the evaluation that ends, as the function that runs takes
the same branches. -/
theorem Evaluates.evaluate_eq {layer : ℕ → ℕ} (hlayers : grammar.Layered layer) {depth : ℕ}
    (h : Evaluates grammar e input outcome) (hcalls : ∀ index ∈ e.calls, layer index < depth) :
    evaluate (evaluateRule grammar depth) e input = outcome := by
  induction h with
  | literal hdrop | noLiteral hdrop =>
    rw [evaluate, hdrop]
  | terminal hscan | noTerminal hscan =>
    rw [evaluate, hscan]
  | @rule index rule input outcome hrule hbody ih =>
    -- the call lies in a layer below the depth, and the calls of its body in
    -- layers below that
    have hdepth := hcalls index (List.mem_singleton_self index)
    rw [evaluate, evaluateRule_eq hlayers hrule hdepth,
      ih fun callee hcallee => (hlayers.layer_lt hrule hcallee).trans hdepth]
  | done => rw [evaluate, evaluateAll]
  | later hpart hmatched hparts ihpart ihparts =>
    rw [Expr.calls, callsOf, List.forall_mem_append] at hcalls
    have hmore := ihparts hcalls.2
    rw [evaluate] at hmore ⊢
    rw [evaluateAll, ihpart hcalls.1, hmatched]
    dsimp only
    rw [hmore]
  | broken hpart hnone ih =>
    rw [Expr.calls, callsOf, List.forall_mem_append] at hcalls
    rw [evaluate, evaluateAll, ih hcalls.1, hnone]
  | exhausted => rw [evaluate, evaluateFirst]
  | chosen hpart hmatched ih =>
    rw [Expr.calls, callsOf, List.forall_mem_append] at hcalls
    rw [evaluate, evaluateFirst, ih hcalls.1, hmatched]
  | passed hpart hnone hparts ihpart ihparts =>
    rw [Expr.calls, callsOf, List.forall_mem_append] at hcalls
    have hmore := ihparts hcalls.2
    rw [evaluate] at hmore ⊢
    rw [evaluateFirst, ihpart hcalls.1, hnone]
    dsimp only
    rw [hmore]
  | optional hpart ih => rw [evaluate, ih hcalls]
  | round hpart hmatched hmoves hmore ihpart ihmore =>
    have hnext := ihmore hcalls
    rw [evaluate] at hnext ⊢
    rw [repeatWhile, ihpart hcalls, hmatched]
    dsimp only
    -- the round took something, which the loop checks before it goes on
    rw [if_pos (hpart.length_lt hmatched hmoves), hnext]
  | still hpart hmatched ih =>
    rw [evaluate, repeatWhile, ih hcalls, hmatched]
    dsimp only
    rw [if_neg (lt_irrefl _)]
  | stop hpart hnone ih => rw [evaluate, repeatWhile, ih hcalls, hnone]

/-! ## The grammar of patterns -/

/-- The rank of a rule over rules nested to a depth. -/
def rankOf (grammar : Grammar Terminal) : ℕ → ℕ → ℕ
  | 0, _ => 0
  | depth + 1, index =>
    match grammar.rules[index]? with
    | none => 0
    | some rule => rule.body.position (rankOf grammar depth) + 1

def standardRank : ℕ → ℕ :=
  rankOf standard 4

theorem ranked_standard : standard.Ranked standardRank := by
  unfold Grammar.Ranked
  decide

theorem closed_standard : standard.Closed := by
  unfold Grammar.Closed
  decide

theorem standardRank_le {index : ℕ} (h : index < standard.rules.length) :
    standardRank index ≤ 10 := by
  have hall : ∀ index < standard.rules.length, standardRank index ≤ 10 := by decide
  exact hall index h

/-- **A rule of patterns evaluates to what it comes to** at any depth past its
layer. So it comes to one outcome only. -/
theorem evaluates_standard_iff {index depth : ℕ} (h : index < standard.rules.length)
    (hdepth : standardLayer index < depth) :
    Evaluates standard (ruleAt index) input outcome ↔
      evaluateRule standard depth index input = outcome := by
  have hcalls : ∀ callee ∈ (ruleAt index).calls, standardLayer callee < depth :=
    fun callee hcallee => List.mem_singleton.1 hcallee ▸ hdepth
  have heq : ∀ outcome, Evaluates standard (ruleAt index) input outcome →
      evaluateRule standard depth index input = outcome := by
    intro outcome houtcome
    have heq := houtcome.evaluate_eq layered_standard hcalls
    rwa [ruleAt, evaluate] at heq
  refine ⟨heq outcome, fun hsame => ?_⟩
  obtain ⟨ended, hended⟩ := exists_evaluates ranked_standard closed_standard _ (ruleAt index)
    (Nat.lt_succ_self _) (fun callee hcallee => List.mem_singleton.1 hcallee ▸ h) input
  rwa [← hsame, heq ended hended]

/-- **A separator moves on**, as it takes a semicolon. -/
theorem length_lt_of_separator
    (h : Evaluates standard (ruleAt Part.separator.index) input outcome) {tokens : List Token}
    (hmatched : outcome.matched = some (tokens, rest)) : rest.length < input.length := by
  cases h with
  | rule hrule hbody =>
    obtain rfl := Option.some.inj hrule
    obtain ⟨taken, htaken⟩ := exists_of_shaped hmatched
    cases hbody with
    | noTerminal => cases htaken
    | terminal hscan =>
      obtain ⟨-, rfl⟩ := Prod.mk.inj (Option.some.inj htaken)
      obtain ⟨head, -, tail, rfl, hrest, -⟩ := Terminal.begins_of_scan? hscan
      exact Nat.lt_succ_of_le hrest.length_le

/-- **Reading by the grammar of patterns comes to an end**, at every place of
every text. What an evaluation opens stands later in the text or at the same
place, and always at a smaller position of the acyclic order of rules and
expressions. A round of a repetition moves on, or it is the last one. So every
rule has one outcome, which is the one at the depth that texts are read to;
evaluations are nested to a depth that the grammar alone bounds; and between
sections the reading moves on. -/
theorem reading_ends :
    (∀ (e : Expr (Symbol Terminal)) (input : List Char) (e' : Expr (Symbol Terminal))
        (input' : List Char), Opens standard e input e' input' →
      (input'.length < input.length ∨ input' = input) ∧
        e'.position standardRank < e.position standardRank) ∧
    (∀ (part : Expr (Symbol Terminal)) (input : List Char) (outcome : Outcome),
      Evaluates standard part input outcome →
        (∃ tokens rest, outcome.matched = some (tokens, rest) ∧ rest.length < input.length ∧
          ∀ next, Evaluates standard (.repetition part) rest next →
            Evaluates standard (.repetition part) input (next.after tokens outcome.reach)) ∨
        Evaluates standard (.repetition part) input
          ⟨some (outcome.matched.getD ([], input)), outcome.reach⟩) ∧
    (∀ index < standard.rules.length, ∀ input : List Char,
      standardLayer index < depthBound standard input ∧
        ∀ depth, standardLayer index < depth → ∀ outcome,
          Evaluates standard (ruleAt index) input outcome ↔
            evaluateRule standard depth index input = outcome) ∧
    (∀ index < standard.rules.length, ∀ (input : List Char)
        (nested : List (Expr (Symbol Terminal) × List Char)),
      List.IsChain (fun s s' => Opens standard s.1 s.2 s'.1 s'.2)
        ((ruleAt index, input) :: nested) → nested.length ≤ 10) ∧
    ∀ (input rest : List Char) (outcome : Outcome) (tokens : List Token),
      Evaluates standard (ruleAt Part.separator.index) input outcome →
      outcome.matched = some (tokens, rest) → rest.length < input.length := by
  refine ⟨fun e input e' input' h => ⟨?_, h.position_lt ranked_standard⟩,
    fun _ _ _ h => h.repetition,
    fun index hindex input => ⟨standardLayer_lt_depthBound index input,
      fun depth hdepth outcome => evaluates_standard_iff hindex hdepth⟩,
    fun index hindex input nested h =>
      (length_le_position ranked_standard nested h).trans (standardRank_le hindex),
    fun _ _ _ _ h hmatched => length_lt_of_separator h hmatched⟩
  exact h.suffix.length_le.lt_or_eq.imp_right h.suffix.eq_of_length

/-- A day is read as a date, and the prefix of the date is opened first. -/
theorem reading_ends_day :
    (∃ outcome, Evaluates standard (ruleAt Part.date.index) "d".toList outcome ∧
      outcome.matched.isSome = true) ∧
    ∃ body, Opens standard (ruleAt Part.date.index) "d".toList (.sequence (ruleAt 2 :: body))
        "d".toList ∧
      (.sequence (ruleAt 2 :: body) : Expr (Symbol Terminal)).position standardRank
        < (ruleAt Part.date.index).position standardRank ∧
      [(.sequence (ruleAt 2 :: body), "d".toList), (ruleAt 2, "d".toList)].length ≤ 10 := by
  have hmatched : (evaluateRule standard 4 Part.date.index "d".toList).matched.isSome = true := by
    decide +kernel
  have hopens : Opens standard (ruleAt Part.date.index) "d".toList
      (.sequence (ruleAt 2 :: oneOrMore 15)) "d".toList :=
    @Opens.rule standard 16 ⟨"DATE".toList, .sequence (ruleAt 2 :: oneOrMore 15)⟩ _ rfl
  refine ⟨⟨_, ((reading_ends.2.2.1 Part.date.index (by decide) _).2 4 (by decide) _).2 rfl,
    hmatched⟩, _, hopens, (reading_ends.1 _ _ _ _ hopens).2,
    reading_ends.2.2.2.1 Part.date.index (by decide) "d".toList _ ?_⟩
  exact List.isChain_cons_cons.2 ⟨hopens, List.isChain_cons_cons.2 ⟨.part, .singleton _⟩⟩

end Pattern

end Worksheet
