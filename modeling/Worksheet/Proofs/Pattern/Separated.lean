import Worksheet.Proofs.Pattern.Completeness
import Worksheet.Proofs.Pattern.Semicolon

/-!
# Reading in front of a semicolon

A section is followed by nothing or by a semicolon with more behind it, and it
should not matter which. Most of what a section is made of is read as if nothing
came behind the semicolon, or not read at all (`Bounded`). What may take a
semicolon in is kept where it is complete by itself (`Kept`), and so is a choice
of such parts, for no two of them begin alike (`Kept.choice_of_apart`).

The two properties are carried from terminals to expressions by one lemma for
each way of making an expression. Which expressions are bounded is computed
(`takesSemicolon`); the few others, rules with literals as their last
alternative, are gone through by hand (`kept_literal` and what follows). At the
end of a section a third property is enough, which speaks of a reading to the
end of the text only (`KeptToEnd`). A section that is read to the end of a text
is therefore read up to the semicolon when one is put behind it, and comes to
the same node (`readPart_inFrontOf`).
-/

namespace Worksheet.Pattern

open Ebnf

theorem before_append_append {input rest more : List Char} :
    Text.before (input ++ more) (rest ++ more) = Text.before input rest := by
  rw [Text.before, Text.before, List.length_append, List.length_append, Nat.add_sub_add_right,
    List.take_append_of_le_length (Nat.sub_le _ _)]

/-! ## What evaluations match

How far readings came is left out, since more text behind the semicolon can be
tried in vain. The equations here are those of the evaluation for what is
matched alone. -/

variable {grammar : Grammar Terminal} {call : Nat → List Char → Outcome}
  {e part : Expr (Symbol Terminal)} {parts : List (Expr (Symbol Terminal))} {input : List Char}
  {index : Nat} {named : Rule (Symbol Terminal)}

theorem matched_evaluateAll_cons : (evaluateAll call (part :: parts) input).matched
    = (evaluate call part input).matched.bind fun (tokens, rest) =>
        (evaluateAll call parts rest).matched.map fun (more, final) => (tokens ++ more, final) := by
  rw [evaluateAll]
  cases h : (evaluate call part input).matched with
  | none => simp only [h, Option.bind_none]
  | some taken => simp only [Outcome.after, Option.bind_some]

theorem matched_evaluateFirst_cons : (evaluateFirst call (part :: parts) input).matched
    = (evaluate call part input).matched.or (evaluateFirst call parts input).matched := by
  rw [evaluateFirst]
  cases h : (evaluate call part input).matched with
  | none => simp only [Outcome.reaching, Option.none_or]
  | some taken => simp only [h, Option.some_or]

theorem exists_of_evaluateFirst {taken : List Token × List Char}
    (h : (evaluateFirst call parts input).matched = some taken) :
    ∃ part ∈ parts, (evaluate call part input).matched = some taken := by
  induction parts with
  | nil => cases h
  | cons part parts ih =>
    rw [matched_evaluateFirst_cons, Option.or_eq_some_iff] at h
    rcases h with h | ⟨-, h⟩
    · exact ⟨part, List.mem_cons_self, h⟩
    · obtain ⟨other, hmem, hother⟩ := ih h
      exact ⟨other, List.mem_cons_of_mem _ hmem, hother⟩

/-- The nodes of a rule as its name puts them into the tree: as they are, or
under a node that may fail to be made. -/
def placed? (name : List Char) (tokens : List Token) : Option (List Token) :=
  match shapeOf? name with
  | none => some tokens
  | some shape => (shape.build? tokens).map ([·])

theorem matched_shaped (name : List Char) (outcome : Outcome) : (shaped name outcome).matched
    = outcome.matched.bind fun (tokens, rest) => (placed? name tokens).map (·, rest) := by
  unfold shaped placed?
  cases shapeOf? name with
  | none =>
    show outcome.matched = outcome.matched.bind some
    cases outcome.matched <;> rfl
  | some shape =>
    refine congrArg outcome.matched.bind (funext fun (tokens, rest) => ?_)
    show (shape.build? tokens).map _ = ((shape.build? tokens).map _).map _
    rw [Option.map_map]
    rfl

/-- A rule matches what its expression matches, and puts the nodes where its
name says. -/
theorem CarriesOut.matched_rule (hcall : CarriesOut grammar call)
    (hrule : grammar.rules[index]? = some named) :
    (evaluate call (.symbol (.rule index)) input).matched
      = (evaluate call named.body input).matched.bind fun (tokens, rest) =>
          (placed? named.name tokens).map (·, rest) := by
  rw [evaluate, hcall.call_eq hrule, matched_shaped]

theorem CarriesOut.matched_rule_eq_some_iff (hcall : CarriesOut grammar call)
    (hrule : grammar.rules[index]? = some named) {tokens : List Token} {rest : List Char} :
    (evaluate call (.symbol (.rule index)) input).matched = some (tokens, rest) ↔
      ∃ taken, (evaluate call named.body input).matched = some (taken, rest) ∧
        placed? named.name taken = some tokens := by
  rw [hcall.matched_rule hrule, Option.bind_eq_some_iff]
  constructor
  · rintro ⟨⟨taken, after⟩, htaken, hplaced⟩
    obtain ⟨nodes, hnodes, heq⟩ := Option.map_eq_some_iff.1 hplaced
    obtain ⟨rfl, rfl⟩ := Prod.mk.inj heq
    exact ⟨taken, htaken, hnodes⟩
  · rintro ⟨taken, htaken, hplaced⟩
    exact ⟨(taken, rest), htaken, Option.map_eq_some_iff.2 ⟨tokens, hplaced, rfl⟩⟩

/-! ## What a semicolon bounds

`Bounded` is an equation for every text, so it goes through repetitions and
alternatives without further conditions. Whether it can be had is computed from
the terminals (`takesSemicolon`). -/

/-- **A semicolon bounds an expression**: in front of one it matches what it
matches in front of nothing. The outcomes need not be equal, as readings that
were given up may have come further. -/
def Bounded (call : Nat → List Char → Outcome) (e : Expr (Symbol Terminal)) : Prop :=
  ∀ input more : List Char, (evaluate call e (input ++ ';' :: more)).matched
    = (evaluate call e input).matched.map (inFrontOf more)

namespace Bounded

theorem terminal {terminal : Terminal} (h : terminal.mayTakeSemicolon = false) :
    Bounded call (.symbol (.terminal terminal)) := by
  intro input more
  rw [evaluate, evaluate, Terminal.scan?_inFrontOf h]
  cases terminal.scan? input with
  | none => rfl
  | some taken =>
    exact congrArg (fun text => some ([Token.leaf taken.1 text], _)) before_append_append

theorem rule (hcall : CarriesOut grammar call) (hrule : grammar.rules[index]? = some named)
    (hbody : Bounded call named.body) : Bounded call (.symbol (.rule index)) := by
  intro input more
  rw [hcall.matched_rule hrule, hcall.matched_rule hrule, hbody]
  cases (evaluate call named.body input).matched with
  | none => rfl
  | some taken =>
    show (placed? named.name taken.1).map _ = ((placed? named.name taken.1).map _).map _
    rw [Option.map_map]
    rfl

theorem sequence (h : ∀ part ∈ parts, Bounded call part) : Bounded call (.sequence parts) := by
  intro input more
  rw [evaluate, evaluate]
  induction parts generalizing input with
  | nil => rfl
  | cons part parts ih =>
    rw [List.forall_mem_cons] at h
    rw [matched_evaluateAll_cons, matched_evaluateAll_cons, h.1]
    cases (evaluate call part input).matched with
    | none => rfl
    | some taken =>
      show (evaluateAll call parts (taken.2 ++ ';' :: more)).matched.map _
        = ((evaluateAll call parts taken.2).matched.map _).map _
      rw [ih h.2, Option.map_map, Option.map_map]
      rfl

theorem choice (h : ∀ part ∈ parts, Bounded call part) : Bounded call (.choice parts) := by
  intro input more
  rw [evaluate, evaluate]
  induction parts with
  | nil => rfl
  | cons part parts ih =>
    rw [List.forall_mem_cons] at h
    rw [matched_evaluateFirst_cons, matched_evaluateFirst_cons, h.1, ih h.2, Option.map_or]

theorem optional (h : Bounded call part) : Bounded call (.optional part) := by
  intro input more
  rw [evaluate, evaluate]
  simp only [h input more]
  cases (evaluate call part input).matched <;> rfl

/-- As many rounds are taken, by induction on the text that is left. -/
theorem repetition (h : Bounded call part) : Bounded call (.repetition part) := by
  intro input more
  rw [evaluate, evaluate]
  fun_induction repeatWhile (fun text => evaluate call part text) input with
  | case1 input tokens rest hmatched hless ih =>
    have hstep := h input more
    rw [hmatched] at hstep
    rw [repeatWhile]
    simp only [hstep, Option.map_some, inFrontOf]
    rw [if_pos (by simpa using hless)]
    simp only [Outcome.after]
    rw [ih, Option.map_map, Option.map_map]
    rfl
  | case2 input tokens rest hmatched hless =>
    have hstep := h input more
    rw [hmatched] at hstep
    rw [repeatWhile]
    simp only [hstep, Option.map_some, inFrontOf]
    rw [if_neg (by simpa using hless)]
  | case3 input hmatched =>
    have hstep := h input more
    rw [hmatched] at hstep
    rw [repeatWhile]
    simp only [hstep, Option.map_some, Option.map_none, inFrontOf]

end Bounded

mutual

/-- Whether an expression may take a semicolon, if it is known of the rules. A
literal of the grammar is counted as one that may, as the grammar has none. -/
def takesSemicolon (table : Nat → Bool) : Expr (Symbol Terminal) → Bool
  | .literal _ => true
  | .symbol (.terminal terminal) => terminal.mayTakeSemicolon
  | .symbol (.rule index) => table index
  | .sequence parts => anyTakesSemicolon table parts
  | .choice parts => anyTakesSemicolon table parts
  | .optional part => takesSemicolon table part
  | .repetition part => takesSemicolon table part

/-- Whether one of some expressions may take a semicolon. -/
def anyTakesSemicolon (table : Nat → Bool) : List (Expr (Symbol Terminal)) → Bool
  | [] => false
  | part :: parts => takesSemicolon table part || anyTakesSemicolon table parts

end

/-- Whether a rule may take a semicolon, from rules nested to a depth. Deeper
rules count as if they did. -/
def ruleTakesSemicolon (grammar : Grammar Terminal) : Nat → Nat → Bool
  | 0, _ => true
  | depth + 1, index =>
    match grammar.rules[index]? with
    | none => true
    | some rule => takesSemicolon (ruleTakesSemicolon grammar depth) rule.body

mutual

/-- **A semicolon bounds what may not take it**, by induction on the
expression. -/
theorem bounded_of_takesSemicolon {table : Nat → Bool}
    (htable : ∀ index, table index = false → Bounded call (ruleAt index)) :
    ∀ e : Expr (Symbol Terminal), takesSemicolon table e = false → Bounded call e
  | .literal _, h => by cases h
  | .symbol (.terminal terminal), h => .terminal h
  | .symbol (.rule index), h => htable index h
  | .sequence parts, h => .sequence (bounded_of_anyTakesSemicolon htable parts h)
  | .choice parts, h => .choice (bounded_of_anyTakesSemicolon htable parts h)
  | .optional part, h => .optional (bounded_of_takesSemicolon htable part h)
  | .repetition part, h => .repetition (bounded_of_takesSemicolon htable part h)

theorem bounded_of_anyTakesSemicolon {table : Nat → Bool}
    (htable : ∀ index, table index = false → Bounded call (ruleAt index)) :
    ∀ parts : List (Expr (Symbol Terminal)), anyTakesSemicolon table parts = false →
      ∀ part ∈ parts, Bounded call part
  | [], _ => nofun
  | part :: parts, h => by
    rw [anyTakesSemicolon, Bool.or_eq_false_iff] at h
    exact List.forall_mem_cons.2 ⟨bounded_of_takesSemicolon htable part h.1,
      bounded_of_anyTakesSemicolon htable parts h.2⟩

end

/-- A semicolon bounds a rule that may not take it. That it may not is decided. -/
theorem bounded_ruleAt (hcall : CarriesOut grammar call) {depth : Nat}
    (h : ruleTakesSemicolon grammar depth index = false) :
    Bounded call (ruleAt index) := by
  induction depth generalizing index with
  | zero => cases h
  | succ depth ih =>
    rw [ruleTakesSemicolon] at h
    split at h
    · cases h
    · exact .rule hcall ‹_› (bounded_of_takesSemicolon (fun _ => ih) _ h)

/-! ## What is kept in front of a semicolon

With literals an expression is no longer bounded, but what it did match it
still matches. For alternatives this needs that none of those before comes in
where it did not match without the semicolon. -/

/-- **What an expression matches is kept in front of a semicolon.** Nothing is
said of what it does not match. -/
def Kept (call : Nat → List Char → Outcome) (e : Expr (Symbol Terminal)) : Prop :=
  ∀ ⦃input rest : List Char⦄ ⦃tokens : List Token⦄,
    (evaluate call e input).matched = some (tokens, rest) →
      ∀ more, (evaluate call e (input ++ ';' :: more)).matched = some (tokens, rest ++ ';' :: more)

namespace Kept

theorem of_bounded (h : Bounded call e) : Kept call e := by
  intro input rest tokens hmatched more
  rw [h, hmatched]
  rfl

theorem literal {text : List Char} : Kept call (.literal text) := by
  intro input rest tokens hmatched more
  rw [evaluate] at hmatched ⊢
  split at hmatched
  · rename_i after hdrop
    obtain ⟨rfl, rfl⟩ := Prod.mk.inj (Option.some.inj hmatched)
    have hdrop' : Text.drop? text (input ++ ';' :: more) = some (after ++ ';' :: more) := by
      rw [Text.drop?_eq_some_iff] at hdrop ⊢
      rw [hdrop, List.append_assoc]
    rw [hdrop']
    rfl
  · cases hmatched

theorem terminal {terminal : Terminal} (h : terminal ≠ .separator) :
    Kept call (.symbol (.terminal terminal)) := by
  intro input rest tokens hmatched more
  rw [evaluate] at hmatched ⊢
  split at hmatched
  · rename_i kind after hscan
    obtain ⟨rfl, rfl⟩ := Prod.mk.inj (Option.some.inj hmatched)
    rw [Terminal.scan?_inFrontOf_of_eq_some h hscan]
    exact congrArg (fun text => some ([Token.leaf kind text], _)) before_append_append
  · cases hmatched

theorem rule (hcall : CarriesOut grammar call) (hrule : grammar.rules[index]? = some named)
    (hbody : Kept call named.body) : Kept call (.symbol (.rule index)) := by
  intro input rest tokens hmatched more
  rw [hcall.matched_rule_eq_some_iff hrule] at hmatched ⊢
  obtain ⟨taken, htaken, hplaced⟩ := hmatched
  exact ⟨taken, hbody htaken more, hplaced⟩

/-- Alternatives that begin differently: none of them comes in where a later one
was taken. -/
theorem choice_of_apart {table : Nat → Front} (hcall : CarriesOut grammar call)
    (htable : Fits grammar table) (hparts : ∀ part ∈ parts, Kept call part)
    (hsome : ∀ part ∈ parts, (front table part).nullable = false)
    (hapart : parts.Pairwise fun e e' => (front table e).Apart (front table e')) :
    Kept call (.choice parts) := by
  intro input rest tokens hmatched more
  rw [evaluate] at hmatched ⊢
  induction parts with
  | nil => cases hmatched
  | cons first others ih =>
    rw [List.forall_mem_cons] at hparts hsome
    rw [matched_evaluateFirst_cons, Option.or_eq_some_iff] at hmatched ⊢
    rcases hmatched with hmatched | ⟨-, hmatched⟩
    · exact .inl (hparts.1 hmatched more)
    · refine .inr ⟨?_, ih hparts.2 hsome.2 hapart.of_cons hmatched⟩
      obtain ⟨other, hmem, hother⟩ := exists_of_evaluateFirst hmatched
      have hlate := hparts.2 other hmem hother more
      refine Option.eq_none_iff_forall_ne_some.2 fun taken htaken => ?_
      exact (List.rel_of_pairwise_cons hapart hmem).not_begins
        ((hcall.derives ⟨_, htaken⟩).begins htable hsome.1)
        ((hcall.derives ⟨_, hlate⟩).begins htable (hsome.2 other hmem))

/-- Alternatives that a semicolon bounds, and then one that is kept. The bounded
ones fail in front of the semicolon where they failed before. -/
theorem choice_of_bounded (bounded : List (Expr (Symbol Terminal)))
    (h : ∀ part ∈ bounded, Bounded call part) (hlast : Kept call e) :
    Kept call (.choice (bounded ++ [e])) := by
  intro input rest tokens hmatched more
  rw [evaluate] at hmatched ⊢
  induction bounded with
  | nil =>
    rw [List.nil_append, matched_evaluateFirst_cons] at hmatched ⊢
    rw [evaluateFirst] at hmatched ⊢
    rw [Outcome.fail, Option.or_none] at hmatched ⊢
    exact hlast hmatched more
  | cons first bounded ih =>
    rw [List.forall_mem_cons] at h
    rw [List.cons_append, matched_evaluateFirst_cons, Option.or_eq_some_iff] at hmatched ⊢
    rcases hmatched with hmatched | ⟨hnone, hmatched⟩
    · exact .inl (of_bounded h.1 hmatched more)
    · refine .inr ⟨?_, ih h.2 hmatched⟩
      rw [h.1, hnone]
      rfl

end Kept

/-- **What an expression matches to the end of a text it matches up to a
semicolon.** -/
def KeptToEnd (call : Nat → List Char → Outcome) (e : Expr (Symbol Terminal)) : Prop :=
  ∀ ⦃input : List Char⦄ ⦃tokens : List Token⦄,
    (evaluate call e input).matched = some (tokens, []) →
      ∀ more, (evaluate call e (input ++ ';' :: more)).matched = some (tokens, ';' :: more)

namespace KeptToEnd

theorem rule (hcall : CarriesOut grammar call) (hrule : grammar.rules[index]? = some named)
    (hbody : KeptToEnd call named.body) : KeptToEnd call (.symbol (.rule index)) := by
  intro input tokens hmatched more
  rw [hcall.matched_rule_eq_some_iff hrule] at hmatched ⊢
  obtain ⟨taken, htaken, hplaced⟩ := hmatched
  exact ⟨taken, hbody htaken more, hplaced⟩

theorem cons (hpart : Kept call part) (hparts : KeptToEnd call (.sequence parts)) :
    KeptToEnd call (.sequence (part :: parts)) := by
  intro input tokens hmatched more
  rw [evaluate, matched_evaluateAll_cons] at hmatched ⊢
  obtain ⟨⟨taken, mid⟩, htaken, hothers⟩ := Option.bind_eq_some_iff.1 hmatched
  obtain ⟨⟨others, final⟩, hfinal, heq⟩ := Option.map_eq_some_iff.1 hothers
  obtain ⟨rfl, rfl⟩ := Prod.mk.inj heq
  have hmore := hparts (by rw [evaluate]; exact hfinal) more
  rw [evaluate] at hmore
  rw [hpart htaken more, Option.bind_some]
  simp only [hmore, Option.map_some]

theorem singleton (h : KeptToEnd call e) : KeptToEnd call (.sequence [e]) := by
  intro input tokens hmatched more
  rw [evaluate, matched_evaluateAll_cons] at hmatched ⊢
  obtain ⟨⟨taken, mid⟩, htaken, hothers⟩ := Option.bind_eq_some_iff.1 hmatched
  simp only [evaluateAll, Outcome.success, Option.map_some] at hothers
  obtain ⟨rfl, rfl⟩ := Prod.mk.inj (Option.some.inj hothers)
  rw [h htaken more, Option.bind_some]
  simp only [evaluateAll, Outcome.success, Option.map_some]

/-- A part that is repeated to the end of a text is repeated to the semicolon,
where it stops as it cannot begin with one. -/
theorem repetition (h : Kept call part)
    (hmoves : ∀ ⦃input rest⦄, Takes call part input rest → rest.length < input.length)
    (hstop : ∀ more rest, ¬ Takes call part (';' :: more) rest) :
    KeptToEnd call (.repetition part) := by
  intro input tokens hmatched more
  rw [evaluate] at hmatched ⊢
  fun_induction repeatWhile (fun text => evaluate call part text) input generalizing tokens with
  | case1 input taken rest hstep hless ih =>
    obtain ⟨⟨others, final⟩, hothers, heq⟩ := Option.map_eq_some_iff.1 hmatched
    obtain ⟨rfl, rfl⟩ := Prod.mk.inj heq
    rw [repeatWhile]
    simp only [h hstep more]
    rw [if_pos (by simpa using hless)]
    simp only [Outcome.after]
    rw [ih hothers]
    rfl
  | case2 input taken rest hstep hless => exact absurd (hmoves ⟨taken, hstep⟩) hless
  | case3 input hstep =>
    obtain ⟨rfl, rfl⟩ := Prod.mk.inj (Option.some.inj hmatched)
    have hnone : (evaluate call part (';' :: more)).matched = none :=
      Option.eq_none_iff_forall_ne_some.2 fun taken htaken => hstop more taken.2 ⟨taken.1, htaken⟩
    rw [List.nil_append, repeatWhile]
    simp only [hnone]

end KeptToEnd

/-! ## Sections

A section is blocks and components, and each rule of components ends in
literals. That the last round stops at the semicolon is read off the characters
it can begin with (`not_takes_semicolon`). -/

theorem kept_literal (hcall : CarriesOut standard call) : Kept call (ruleAt 3) := by
  refine .rule hcall rfl (.choice_of_apart hcall fits_fronts ?_ (by decide) (by decide))
  simp [piece, Kept.terminal]

theorem kept_dateTimeLiteral (hcall : CarriesOut standard call) : Kept call (ruleAt 4) := by
  refine .rule hcall rfl (.choice_of_apart hcall fits_fronts ?_ (by decide) (by decide))
  simp [kept_literal hcall, Kept.literal]

/-- A rule with alternatives that may not take a semicolon, and then one that is
kept. Components are of this form, with literals at the end. -/
theorem kept_alternatives (hcall : CarriesOut standard call) {index : Nat} {name : List Char}
    (bounded : List (Expr (Symbol Terminal)))
    (hrule : standard.rules[index]? = some ⟨name, .choice (bounded ++ [e])⟩)
    (hbounded : anyTakesSemicolon (ruleTakesSemicolon standard 4) bounded = false)
    (hlast : Kept call e) : Kept call (ruleAt index) :=
  .rule hcall hrule (.choice_of_bounded bounded
    (bounded_of_anyTakesSemicolon (fun _ => bounded_ruleAt hcall) bounded hbounded) hlast)

theorem kept_numberComponent (hcall : CarriesOut standard call) : Kept call (ruleAt 6) :=
  kept_alternatives hcall [piece .digit, piece .digitZero, piece .digitSpace, piece .decimalPoint,
    piece .groupSeparator, piece .percent, piece .currency, piece .exponent] rfl (by decide)
    (kept_literal hcall)

theorem kept_dateComponent (hcall : CarriesOut standard call) : Kept call (ruleAt 15) :=
  kept_alternatives hcall [piece .day, piece .month, piece .year] rfl (by decide)
    (kept_dateTimeLiteral hcall)

theorem kept_timeComponent (hcall : CarriesOut standard call) : Kept call (ruleAt 17) :=
  kept_alternatives hcall [piece .hour, piece .monthOrMinute,
    .sequence [piece .second, .optional (ruleAt 14)], piece .amPm] rfl (by decide)
    (kept_dateTimeLiteral hcall)

theorem kept_dateTimeComponent (hcall : CarriesOut standard call) : Kept call (ruleAt 19) :=
  kept_alternatives hcall [piece .day, piece .year, piece .hour, piece .monthOrMinute,
    .sequence [piece .second, .optional (ruleAt 14)], piece .amPm] rfl (by decide)
    (kept_dateTimeLiteral hcall)

/-- What begins with no semicolon is not taken where there is one. -/
theorem not_takes_semicolon (hcall : CarriesOut standard call)
    (hsome : (front fronts e).nullable = false)
    (hheads : ∀ head ∈ (front fronts e).heads, head.char ≠ ';') (more rest : List Char) :
    ¬ Takes call e (';' :: more) rest := by
  intro h
  obtain ⟨head, hmem, tail, heq, -⟩ := (hcall.derives h).begins fits_fronts hsome
  exact hheads head hmem (List.cons.inj heq).1.symm

/-- Blocks and then components that are kept. -/
theorem keptToEnd_components (hcall : CarriesOut standard call) {index component : Nat}
    {name : List Char}
    (hrule : standard.rules[index]? = some ⟨name, .sequence (ruleAt 2 :: oneOrMore component)⟩)
    (hcomponent : Kept call (ruleAt component))
    (hsome : (front fronts (ruleAt component)).nullable = false)
    (hheads : ∀ head ∈ (front fronts (ruleAt component)).heads, head.char ≠ ';') :
    KeptToEnd call (ruleAt index) := by
  have hblocks : ruleTakesSemicolon standard 4 2 = false := by decide
  have hmore : KeptToEnd call (.repetition (ruleAt component)) :=
    .repetition hcomponent (fun _ _ h => (hcall.derives h).length_lt fits_fronts hsome)
      (not_takes_semicolon hcall hsome hheads)
  exact .rule hcall hrule
    (.cons (.of_bounded (bounded_ruleAt hcall hblocks)) (.cons hcomponent (.singleton hmore)))

/-- **Sections that stand by themselves**: those for numbers, dates and times.
They are what patterns for reading are made of. -/
def Part.isRow : Part → Bool
  | number | date | dateTime | time => true
  | _ => false

theorem keptToEnd_part (hcall : CarriesOut standard call) {part : Part} (h : part.isRow = true) :
    KeptToEnd call (ruleAt part.index) := by
  cases part with
  | number =>
    exact keptToEnd_components hcall rfl (kept_numberComponent hcall) (by decide) (by decide)
  | date => exact keptToEnd_components hcall rfl (kept_dateComponent hcall) (by decide) (by decide)
  | time => exact keptToEnd_components hcall rfl (kept_timeComponent hcall) (by decide) (by decide)
  | dateTime =>
    exact keptToEnd_components hcall rfl (kept_dateTimeComponent hcall) (by decide) (by decide)
  | _ => cases h

/-- **A section that is read to the end of a text is read up to a semicolon**
behind it, and comes to the same node, however the text goes on behind the
semicolon. -/
theorem readPart_inFrontOf {part : Part} (hpart : part.isRow = true) {text : List Char}
    {token : Token} (h : (readPart standard part text).1 = some (token, [])) (more : List Char) :
    (readPart standard part (text ++ ';' :: more)).1 = some (token, ';' :: more) := by
  rw [readPart_standard_iff] at h ⊢
  have hdepth := evaluateRule_congr layered_standard
    (standardLayer_lt_depthBound part.index (text ++ ';' :: more))
    (standardLayer_lt_depthBound part.index text)
  rw [hdepth]
  exact keptToEnd_part (carriesOut_standard text) hpart h more

end Worksheet.Pattern
