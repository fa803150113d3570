import Worksheet.Proofs.Pattern.Front
import Worksheet.Proofs.Pattern.Spelling

/-!
# When greedy readings find what a grammar derives

An evaluation takes the first alternative that matches, takes an optional part
whenever it is there, goes on repeating for as long as it can, and takes nothing
back. It may so miss what a grammar derives, and whether it does depends on what
comes next. `Finds` says that it does not: if an expression derives the
beginning of a text, and what is left is one of some continuations, the
evaluation takes just this beginning.

There is one lemma for each way of making an expression, and each has a
condition where the evaluation makes up its mind. Of two alternatives that can
both be taken the first must leave what the second would leave (`Separate`), and
where an optional or repeated part is left out it must not be derivable
(`Bars`). Both can mostly be seen from the first character (`separate_of_agree`,
`Bars.before`); where they cannot, what stands in front of the difference is
read in one way only (`Bars.common`).
-/

namespace Worksheet.Pattern

open Ebnf

variable {grammar : Grammar Terminal} {call : Nat → List Char → Outcome}
  {e part next : Expr (Symbol Terminal)} {parts parts' : List (Expr (Symbol Terminal))}
  {follow follow' : List Char → Prop} {input rest : List Char}

/-- **A call carries out the rules of a grammar**: what it matches is parsed,
and a rule comes to what its expression comes to. The depth of the evaluation
does not appear here, so the lemmas below hold for any depth that suffices
(`carriesOut_standard`). -/
structure CarriesOut (grammar : Grammar Terminal) (call : Nat → List Char → Outcome) : Prop where
  sound : ∀ index input, (call index input).Sound grammar (.symbol (.rule index)) input
  call_eq : ∀ {index : Nat} {rule : Rule (Symbol Terminal)},
    grammar.rules[index]? = some rule →
      ∀ input, call index input = shaped rule.name (evaluate call rule.body input)

theorem CarriesOut.derives (hcall : CarriesOut grammar call) (h : Takes call e input rest) :
    Derives grammar e input rest :=
  let ⟨tokens, htokens⟩ := h
  (Outcome.sound_evaluate hcall.sound e input tokens rest htokens).derives

theorem Takes.rest_eq {rest' : List Char} (h : Takes call e input rest)
    (h' : Takes call e input rest') : rest = rest' := by
  obtain ⟨tokens, htokens⟩ := h
  obtain ⟨tokens', htokens'⟩ := h'
  exact (Prod.mk.inj (Option.some.inj (htokens.symm.trans htokens'))).2

/-- **An evaluation finds what an expression derives** in front of some
continuations. It need not take the longest beginning that is derived: it takes
the one that leaves a continuation, if there is one. -/
def Finds (grammar : Grammar Terminal) (call : Nat → List Char → Outcome)
    (e : Expr (Symbol Terminal)) (follow : List Char → Prop) : Prop :=
  ∀ ⦃input rest : List Char⦄, Derives grammar e input rest → follow rest → Takes call e input rest

/-- What an expression derives in front of some continuations. These are the
continuations of what stands in front of the expression. -/
def Before (grammar : Grammar Terminal) (e : Expr (Symbol Terminal))
    (follow : List Char → Prop) (input : List Char) : Prop :=
  ∃ rest, Derives grammar e input rest ∧ follow rest

/-- **A continuation bars an expression**: the expression derives none of its
beginnings. An option may then be left out, and a repetition may stop. -/
def Bars (grammar : Grammar Terminal) (follow : List Char → Prop)
    (e : Expr (Symbol Terminal)) : Prop :=
  ∀ ⦃input rest : List Char⦄, follow input → ¬ Derives grammar e input rest

/-- **An alternative may be taken before another**: where both derive the
beginning of a text, it leaves what the other would. The order of the two
matters, as only the first can take from the second. -/
def Separate (grammar : Grammar Terminal) (follow : List Char → Prop)
    (e e' : Expr (Symbol Terminal)) : Prop :=
  ∀ ⦃input rest rest' : List Char⦄, Derives grammar e input rest →
    Derives grammar e' input rest' → follow rest' → rest = rest'

/-! ## Continuations -/

theorem before_nil (h : Before grammar (.sequence []) follow input) : follow input := by
  obtain ⟨rest, hnil, hrest⟩ := h
  cases hnil
  exact hrest

theorem before_singleton (h : Before grammar (.sequence [e]) follow input) :
    Before grammar e follow input := by
  obtain ⟨rest, hsequence, hrest⟩ := h
  cases hsequence with
  | cons he hnil =>
    cases hnil
    exact ⟨_, he, hrest⟩

theorem before_rule {index : Nat} {rule : Rule (Symbol Terminal)}
    (h : Before grammar (.symbol (.rule index)) follow input)
    (hrule : grammar.rules[index]? = some rule) :
    Before grammar rule.body follow input := by
  obtain ⟨rest, hderives, hrest⟩ := h
  cases hderives with
  | rule hrule' hbody =>
    obtain rfl := Option.some.inj (hrule.symm.trans hrule')
    exact ⟨rest, hbody, hrest⟩

/-! ## One lemma for each way of making an expression

`Finds` goes through every constructor of `Expr`. The conditions that a lemma
asks for are those under which greed does no harm: alternatives are to be
separate, and what may be left out is to be barred by what comes after it. -/

namespace Finds

theorem mono (h : Finds grammar call e follow) (hfollow : ∀ rest, follow' rest → follow rest) :
    Finds grammar call e follow' :=
  fun _ rest hderives hrest => h hderives (hfollow rest hrest)

theorem literal {text : List Char} : Finds grammar call (.literal text) follow := by
  intro input rest hderives _
  cases hderives
  exact ⟨_, by rw [evaluate, Text.drop?_eq_some_iff.2 rfl]; rfl⟩

theorem terminal {terminal : Terminal} :
    Finds grammar call (.symbol (.terminal terminal)) follow := by
  intro input rest hderives _
  cases hderives with
  | terminal hscan => exact ⟨_, by rw [evaluate, hscan]; rfl⟩

/-- A rule that hands its nodes on. -/
theorem splice (hcall : CarriesOut grammar call) {index : Nat} {rule : Rule (Symbol Terminal)}
    (hrule : grammar.rules[index]? = some rule) (hshape : shapeOf? rule.name = none)
    (hbody : Finds grammar call rule.body follow) :
    Finds grammar call (.symbol (.rule index)) follow := by
  intro input rest hderives hrest
  cases hderives with
  | rule hrule' hderives =>
    obtain rfl := Option.some.inj (hrule.symm.trans hrule')
    obtain ⟨tokens, htokens⟩ := hbody hderives hrest
    exact ⟨tokens, by rw [evaluate, hcall.call_eq hrule, shaped, hshape]; exact htokens⟩

/-- A rule that puts its nodes under one node, which must not fail to be made. -/
theorem node (hcall : CarriesOut grammar call) {index : Nat} {rule : Rule (Symbol Terminal)}
    {shape : Shape} (hrule : grammar.rules[index]? = some rule)
    (hshape : shapeOf? rule.name = some shape)
    (hbuild : ∀ ⦃input tokens rest⦄, Parses grammar rule.body input tokens rest →
      ∃ token, shape.build? tokens = some token)
    (hbody : Finds grammar call rule.body follow) :
    Finds grammar call (.symbol (.rule index)) follow := by
  intro input rest hderives hrest
  cases hderives with
  | rule hrule' hderives =>
    obtain rfl := Option.some.inj (hrule.symm.trans hrule')
    obtain ⟨tokens, htokens⟩ := hbody hderives hrest
    obtain ⟨token, htoken⟩ :=
      hbuild (Outcome.sound_evaluate hcall.sound rule.body input tokens rest htokens)
    refine ⟨[token], ?_⟩
    rw [evaluate, hcall.call_eq hrule, shaped, hshape]
    simp only [htokens, Option.bind_some, htoken, Option.map_some]

theorem nil : Finds grammar call (.sequence []) follow := by
  intro input rest hderives _
  cases hderives
  exact ⟨[], by rw [evaluate, evaluateAll]; rfl⟩

/-- One part after the other: the first is read in front of the others. -/
theorem cons (hpart : Finds grammar call part (Before grammar (.sequence parts) follow))
    (hparts : Finds grammar call (.sequence parts) follow) :
    Finds grammar call (.sequence (part :: parts)) follow := by
  intro input rest hderives hrest
  cases hderives with
  | cons hfirst hothers =>
    obtain ⟨tokens, htokens⟩ := hpart hfirst ⟨rest, hothers, hrest⟩
    obtain ⟨more, hmore⟩ := hparts hothers hrest
    rw [evaluate] at hmore
    refine ⟨tokens ++ more, ?_⟩
    rw [evaluate, evaluateAll]
    simp only [htokens, Outcome.after, hmore, Option.map_some]

theorem singleton (h : Finds grammar call e follow) :
    Finds grammar call (.sequence [e]) follow :=
  .cons (h.mono fun _ => before_nil) .nil

/-- Alternatives of which none takes what is another's. The first one that
matches leaves what any derivation would leave, by `Separate` for it and the one
that the derivation takes. -/
theorem choice (hcall : CarriesOut grammar call)
    (hparts : ∀ part ∈ parts, Finds grammar call part follow)
    (hseparate : parts.Pairwise (Separate grammar follow)) :
    Finds grammar call (.choice parts) follow := by
  intro input rest hderives hrest
  cases hderives with
  | @choice part _ _ _ hmem hpart =>
    rw [Takes, evaluate]
    induction parts with
    | nil => cases hmem
    | cons first others ih =>
      rw [evaluateFirst]
      cases hfirst : (evaluate call first input).matched with
      | some taken =>
        -- what the first takes leaves the rest, whichever alternative derives it
        obtain ⟨tokens, rest'⟩ := taken
        simp only [hfirst]
        refine ⟨tokens, congrArg (fun r => some (tokens, r)) ?_⟩
        rcases List.mem_cons.1 hmem with rfl | hother
        · exact Takes.rest_eq ⟨tokens, hfirst⟩ (hparts _ List.mem_cons_self hpart hrest)
        · exact List.rel_of_pairwise_cons hseparate hother
            (hcall.derives ⟨tokens, hfirst⟩) hpart hrest
      | none =>
        rcases List.mem_cons.1 hmem with rfl | hother
        · obtain ⟨tokens, htokens⟩ := hparts _ List.mem_cons_self hpart hrest
          rw [hfirst] at htokens
          cases htokens
        · exact ih (fun other h => hparts other (List.mem_cons_of_mem _ h))
            hseparate.of_cons hother

/-- A part that may be left out only where it is not there. -/
theorem optional (hcall : CarriesOut grammar call) (hpart : Finds grammar call part follow)
    (hbars : Bars grammar follow part) : Finds grammar call (.optional part) follow := by
  intro input rest hderives hrest
  rw [Takes, evaluate]
  cases hderives with
  | absent =>
    have hnone : (evaluate call part input).matched = none :=
      Option.eq_none_iff_forall_ne_some.2 fun taken htaken =>
        hbars hrest (hcall.derives ⟨taken.1, htaken⟩)
    exact ⟨[], by simp only [hnone, Option.getD_none]⟩
  | present hderives =>
    obtain ⟨tokens, htokens⟩ := hpart hderives hrest
    exact ⟨tokens, by simp only [htokens, Option.getD_some]⟩

/-- A part that is repeated for as long as it is there. By induction on the
length of the text, as every round takes something. -/
theorem repetition (hcall : CarriesOut grammar call)
    (hpart : Finds grammar call part (Before grammar (.repetition part) follow))
    (hbars : Bars grammar follow part)
    (hmoves : ∀ ⦃input rest⦄, Derives grammar part input rest → rest.length < input.length) :
    Finds grammar call (.repetition part) follow := by
  intro input rest hderives hrest
  rw [Takes, evaluate]
  generalize he : Expr.repetition part = e at hderives
  induction hderives with
  | stop =>
    obtain rfl := Expr.repetition.inj he
    rename_i input
    have hnone : (evaluate call part input).matched = none :=
      Option.eq_none_iff_forall_ne_some.2 fun taken htaken =>
        hbars hrest (hcall.derives ⟨taken.1, htaken⟩)
    exact ⟨[], by rw [repeatWhile]; simp only [hnone]⟩
  | round hround hmore _ ih =>
    obtain rfl := Expr.repetition.inj he
    obtain ⟨tokens, htokens⟩ := hpart hround ⟨_, hmore, hrest⟩
    obtain ⟨more, hmore⟩ := ih hrest rfl
    refine ⟨tokens ++ more, ?_⟩
    rw [repeatWhile]
    simp only [htokens, if_pos (hmoves hround), Outcome.after, hmore, Option.map_some]
  | literal | terminal | rule | nil | cons | choice | absent | present => cases he

end Finds

/-! ## Telling from the first character

Most conditions follow from fronts that have no character in common. They are
decided for each rule once the table of fronts fits the grammar. -/

variable {table : Nat → Front}

theorem Derives.begins (htable : Fits grammar table) (hsome : (front table e).nullable = false)
    (h : Derives grammar e input rest) : Begins (front table e).heads input rest :=
  (h.allows htable).begins hsome

theorem Derives.length_lt (htable : Fits grammar table)
    (hsome : (front table e).nullable = false) (h : Derives grammar e input rest) :
    rest.length < input.length :=
  (h.begins htable hsome).length_lt

/-- The nodes of what cannot be empty have text, so a node can be put over
them. -/
theorem Parses.joinedText_ne_nil (htable : Fits grammar table) (hgrammar : grammar.HasText)
    (hsome : (front table e).nullable = false) (he : e.hasText = true) {tokens : List Token}
    (h : Parses grammar e input tokens rest) : Token.joinedText tokens ≠ [] := by
  obtain ⟨taken, rfl, htokens⟩ := h.makeUp hgrammar he
  intro hnil
  have hless := h.derives.length_lt htable hsome
  rw [← htokens.joinedText_eq, hnil] at hless
  exact lt_irrefl _ hless

/-- Alternatives that share no character to begin with but those that each takes
alone. -/
theorem separate_of_agree (htable : Fits grammar table) {e e' : Expr (Symbol Terminal)}
    (hagree : (front table e).Agree (front table e')) (hsome : (front table e).nullable = false)
    (hsome' : (front table e').nullable = false) : Separate grammar follow e e' :=
  fun _ _ _ h h' _ => hagree.rest_eq (h.begins htable hsome) (h'.begins htable hsome')

theorem pairwise_separate (htable : Fits grammar table)
    (hsome : ∀ part ∈ parts, (front table part).nullable = false)
    (hagree : parts.Pairwise fun e e' => (front table e).Agree (front table e')) :
    parts.Pairwise (Separate grammar follow) :=
  hagree.imp_of_mem fun hmem hmem' h =>
    separate_of_agree htable h (hsome _ hmem) (hsome _ hmem')

/-- The end of a text bars what cannot be empty. -/
theorem bars_end (htable : Fits grammar table) (hsome : (front table e).nullable = false) :
    Bars grammar (· = []) e := by
  rintro _ rest rfl h
  exact Nat.not_lt_zero _ (h.length_lt htable hsome)

/-- What begins differently bars an expression, if what comes after it does so
where it may be empty. -/
theorem Bars.before (htable : Fits grammar table) (hsome : (front table e).nullable = false)
    (hapart : (front table e).Apart (front table next))
    (hrest : (front table next).nullable = true → Bars grammar follow e) :
    Bars grammar (Before grammar next follow) e := by
  rintro input rest ⟨rest', hnext, hrest'⟩ h
  rcases hnext.allows htable with hbegins | ⟨hnullable, rfl⟩
  · exact hapart.not_begins (h.begins htable hsome) hbegins
  · exact hrest hnullable hrest' h

theorem bars_of_apart (htable : Fits grammar table) (hsome : (front table e).nullable = false)
    (hnext : (front table next).nullable = false)
    (hapart : (front table e).Apart (front table next)) :
    Bars grammar (Before grammar next follow) e :=
  .before htable hsome hapart fun hnullable =>
    absurd (hnext.symm.trans hnullable) Bool.false_ne_true

/-! ## Telling behind a common part

Where two alternatives begin with the same part, the part is read in one way
only, as it is found in front of either continuation. The comparison then goes
on behind it. -/

/-- **What is barred behind a part is barred with the part in front**, if the
part is found in front of either. Both readings of the part then are the one
that the evaluation takes, so they leave the same rest, and behind that the two
expressions differ. -/
theorem Bars.common (call : Nat → List Char → Outcome)
    (hpart : Finds grammar call part (Before grammar (.sequence parts) follow))
    (hpart' : Finds grammar call part (Before grammar (.sequence parts') fun _ => True))
    (hbars : Bars grammar (Before grammar (.sequence parts) follow) (.sequence parts')) :
    Bars grammar (Before grammar (.sequence (part :: parts)) follow)
      (.sequence (part :: parts')) := by
  rintro input rest ⟨final, hexpected, hfinal⟩ h
  cases hexpected with
  | cons hfirst hothers =>
    cases h with
    | cons hfirst' hothers' =>
      have heq := (hpart hfirst ⟨final, hothers, hfinal⟩).rest_eq
        (hpart' hfirst' ⟨rest, hothers', trivial⟩)
      subst heq
      exact hbars ⟨final, hothers, hfinal⟩ hothers'

theorem Bars.rule {index : Nat} {rule : Rule (Symbol Terminal)}
    (hrule : grammar.rules[index]? = some rule) (hbody : Bars grammar follow rule.body) :
    Bars grammar follow (.symbol (.rule index)) := by
  intro input rest hinput h
  cases h with
  | rule hrule' h =>
    obtain rfl := Option.some.inj (hrule.symm.trans hrule')
    exact hbody hinput h

/-- Alternatives are separate if one bars the other: there is then no text where
both could be taken. -/
theorem Bars.separate {e' : Expr (Symbol Terminal)}
    (h : Bars grammar (Before grammar e' fun _ => True) e) : Separate grammar follow e e' :=
  fun _ _ rest' he he' _ => absurd he (h ⟨rest', he', trivial⟩)

end Worksheet.Pattern
