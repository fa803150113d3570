import Worksheet.Proofs.Ebnf.Names
import Worksheet.Proofs.Ebnf.Reading

/-!
# Grammar sources

A source is a grammar exactly when it is laid out from the tokens of rules that
have names of their own and use no name that stands for nothing, and the grammar
has these rules in their order (`Grammar.ofSource?_iff`). The tokens are read
one rule after the other (`readRules_eq_ok_iff`). They are the lexemes of the
source, since names only ever stand next to marks (`WritesRules.separable`).
-/

namespace Worksheet.Ebnf

/-! ## Tokens of which no two names meet

Two names side by side would be one. `Separable` rules this out for the
tokens of expressions and rules, since there is a mark between any two parts
of them. -/

/-- **Tokens that are told apart** however they are laid out: no two names
meet. -/
structure Separable (tokens : List Lexeme) : Prop where
  isToken : ∀ token ∈ tokens, token.IsToken
  apart : tokens.IsChain Lexeme.Apart

theorem Separable.nil : Separable [] :=
  ⟨fun _ h => absurd h List.not_mem_nil, .nil⟩

theorem Separable.singleton {token : Lexeme} (h : token.IsToken) : Separable [token] :=
  ⟨List.forall_mem_singleton.2 h, .singleton token⟩

/-- A mark is told apart from anything on both sides of it. -/
theorem Separable.append_mark {front back : List Lexeme} {mark : Char} (hfront : Separable front)
    (hmark : mark ∈ marks) (hback : Separable back) :
    Separable (front ++ .mark mark :: back) where
  isToken := List.forall_mem_append.2
    ⟨hfront.isToken, List.forall_mem_cons.2 ⟨hmark, hback.isToken⟩⟩
  apart := by
    refine List.isChain_append.2
      ⟨hfront.apart, List.isChain_cons.2 ⟨fun _ _ => trivial, hback.apart⟩, ?_⟩
    intro first _ second hsecond
    obtain rfl := Option.some.inj hsecond
    cases first <;> trivial

theorem Separable.enclosed {tokens : List Lexeme} {opening close : Char} (h : Separable tokens)
    (hopening : opening ∈ marks) (hclose : close ∈ marks) :
    Separable (.mark opening :: tokens ++ [.mark close]) :=
  (nil.append_mark hopening h).append_mark hclose nil

theorem Separable.append_behind {mark : Char} (hmark : mark ∈ marks) {front : List Lexeme}
    {pieces : List (List Lexeme × Expr (List Char))} (hfront : Separable front)
    (h : ∀ piece ∈ pieces, Separable piece.1) : Separable (front ++ behind mark pieces) := by
  induction pieces generalizing front with
  | nil => rwa [behind, List.flatMap_nil, List.append_nil]
  | cons piece pieces ih =>
    obtain ⟨hpiece, hpieces⟩ := List.forall_mem_cons.1 h
    exact hfront.append_mark hmark (ih hpiece hpieces)

theorem Separable.intercalate {mark : Char} (hmark : mark ∈ marks)
    {pieces : List (List Lexeme × Expr (List Char))} (h : ∀ piece ∈ pieces, Separable piece.1) :
    Separable ([.mark mark].intercalate (pieces.map Prod.fst)) := by
  cases pieces with
  | nil => exact nil
  | cons first more =>
    obtain ⟨hfirst, hmore⟩ := List.forall_mem_cons.1 h
    rw [intercalate_eq]
    exact hfirst.append_behind hmark hmore

/-- **The tokens of an expression are told apart**, as there is a mark between
any two parts. -/
theorem Writes.separable {level : Level} {tokens : List Lexeme} {part : Expr (List Char)}
    (h : Writes level tokens part) : Separable tokens := by
  induction h with
  | literal | name => exact .singleton trivial
  | optional _ ih | repetition _ ih | group _ ih => exact ih.enclosed (by decide) (by decide)
  | single _ ih | only _ ih => exact ih
  | sequence _ _ ih | choice _ _ ih => exact .intercalate (by decide) ih

/-- **The tokens of rules are told apart.** A rule ends with a mark. -/
theorem WritesRules.separable {tokens : List Lexeme} {rules : List (Rule (List Char))}
    (h : WritesRules tokens rules) : Separable tokens := by
  induction h with
  | nil => exact .nil
  | cons name hbody _ ih =>
    have hname : Separable [.name name] := .singleton trivial
    exact hname.append_mark (by decide) (hbody.separable.append_mark (by decide) ih)

/-! ## Rules

A rule is a name, an equals sign, an expression and a semicolon. That it is
read exactly where it is written follows from the same for each of the four,
one after the other. -/

variable {finish : ℕ} {input : List Placed} {tokens : List Lexeme}
  {rules earlier : List (Rule (List Char))}

theorem plain_readRule (input : List Placed) :
    plain (readRule finish input)
      = (plain (readName finish input)).bind fun name =>
        (plain (readMark finish '=' name.2)).bind fun equals =>
          (plain (readAlternatives finish equals.2)).bind fun body =>
            (plain (readMark finish ';' body.2)).map fun after =>
              (⟨name.1, body.1⟩, after.2) := by
  rw [readRule]
  cases readName finish input with
  | error => rfl
  | ok name =>
    obtain ⟨⟨name, rest⟩, h⟩ := name
    simp only [plain, Except.map, Except.bind]
    cases readMark finish '=' rest with
    | error => rfl
    | ok equals =>
      obtain ⟨⟨u, rest⟩, h'⟩ := equals
      dsimp only
      cases readAlternatives finish rest with
      | error => rfl
      | ok body =>
        obtain ⟨⟨body, rest⟩, h''⟩ := body
        dsimp only
        cases readMark finish ';' rest <;> rfl

/-- **A rule is read where it is written.** Its name, its marks and its body are
read one after the other, and each in only one way. -/
theorem plain_readRule_eq_ok_iff {rule : Rule (List Char)} {rest : List Placed} :
    plain (readRule finish input) = .ok (rule, rest)
      ↔ ∃ named equals used ended, input = ⟨.name rule.name, named⟩ :: ⟨.mark '=', equals⟩ ::
          (used ++ ⟨.mark ';', ended⟩ :: rest)
        ∧ Writes .alternatives (used.map Placed.lexeme) rule.body := by
  rw [plain_readRule]
  constructor
  · intro h
    obtain ⟨⟨name, afterName⟩, hname, h⟩ := exists_of_bind_eq_ok h
    obtain ⟨⟨u, afterEquals⟩, hequals, h⟩ := exists_of_bind_eq_ok h
    obtain ⟨⟨body, afterBody⟩, hbody, h⟩ := exists_of_bind_eq_ok h
    obtain ⟨⟨u', final⟩, hended, hresult⟩ := exists_of_map_eq_ok h
    cases hresult
    obtain ⟨named, rfl⟩ := plain_readName_eq_ok_iff.1 hname
    obtain ⟨equals, rfl⟩ := plain_readMark_eq_ok_iff.1 hequals
    obtain ⟨ended, rfl⟩ := plain_readMark_eq_ok_iff.1 hended
    obtain ⟨used, rfl, hused⟩ := sound_alternatives finish _ afterEquals (le_refl _) _ hbody
    exact ⟨named, equals, used, ended, rfl, hused⟩
  · rintro ⟨named, equals, used, ended, rfl, hused⟩
    -- the four readers in turn, each over the lexemes the rule is written with
    have hname : plain (readName finish (⟨.name rule.name, named⟩ :: ⟨.mark '=', equals⟩ ::
        (used ++ ⟨.mark ';', ended⟩ :: rest))) = .ok (rule.name, _) :=
      plain_readName_eq_ok_iff.2 ⟨named, rfl⟩
    have hequals : plain (readMark finish '=' (⟨.mark '=', equals⟩ ::
        (used ++ ⟨.mark ';', ended⟩ :: rest))) = .ok ((), _) :=
      plain_readMark_eq_ok_iff.2 ⟨equals, rfl⟩
    have hbody : plain (readAlternatives finish (used ++ ⟨.mark ';', ended⟩ :: rest))
        = .ok (rule.body, ⟨.mark ';', ended⟩ :: rest) :=
      isRead_of_writes hused finish used _ rfl (follows_mark (by decide) ended rest)
    have hended : plain (readMark finish ';' (⟨.mark ';', ended⟩ :: rest)) = .ok ((), rest) :=
      plain_readMark_eq_ok_iff.2 ⟨ended, rfl⟩
    rw [hname]
    dsimp only [Except.bind]
    rw [hequals]
    dsimp only
    rw [hbody]
    dsimp only
    rw [hended]
    rfl

theorem readRules_cons (placed : Placed) (input : List Placed) :
    readRules finish earlier (placed :: input)
      = (plain (readRule finish (placed :: input))).bind fun read =>
        if (ruleIndex? earlier read.1.name).isSome then .error (.duplicateRule read.1.name)
        else readRules finish (earlier ++ [read.1]) read.2 := by
  rw [readRules]
  cases readRule finish (placed :: input) with
  | error => rfl
  | ok read => rfl

theorem isSome_ruleIndex?_iff {name : List Char} :
    (ruleIndex? earlier name).isSome = true ↔ name ∈ earlier.map Rule.name := by
  rw [← not_iff_not, ← ruleIndex?_eq_none_iff, Bool.not_eq_true, Option.isSome_eq_false_iff,
    Option.isNone_iff_eq_none]

theorem nodup_append_singleton {rule : Rule (List Char)}
    (hearlier : (earlier.map Rule.name).Nodup) (hnew : rule.name ∉ earlier.map Rule.name) :
    ((earlier ++ [rule]).map Rule.name).Nodup := by
  rw [List.map_append, List.map_singleton]
  refine List.nodup_append.2 ⟨hearlier, List.nodup_singleton _, fun name hname other hother => ?_⟩
  obtain rfl := List.mem_singleton.1 hother
  rintro rfl
  exact hnew hname

/-- **Rules are read where they are written**, if their names are all different.
By induction on the lexemes, with the rules read before in `earlier`. -/
theorem readRules_eq_ok_iff (hearlier : (earlier.map Rule.name).Nodup) :
    readRules finish earlier input = .ok rules
      ↔ ∃ more, rules = earlier ++ more ∧ WritesRules (input.map Placed.lexeme) more
        ∧ (rules.map Rule.name).Nodup := by
  induction hlength : input.length using Nat.strongRecOn generalizing input earlier with
  | ind length ih =>
    cases input with
    | nil =>
      rw [readRules]
      constructor
      · intro h
        cases h
        exact ⟨[], (List.append_nil rules).symm, .nil, hearlier⟩
      · rintro ⟨more, rfl, hmore, -⟩
        cases hmore
        rw [List.append_nil]
    | cons placed input =>
      rw [readRules_cons]
      constructor
      · intro h
        obtain ⟨⟨rule, rest⟩, hrule, h⟩ := exists_of_bind_eq_ok h
        dsimp only at h
        split at h
        · cases h
        · rename_i hnew
          rw [isSome_ruleIndex?_iff] at hnew
          -- the rule takes a lexeme at least, so the rest is shorter and the
          -- induction reads it
          have hshorter : rest.length < (placed :: input).length := fits_of_plain hrule
          obtain ⟨more, rfl, hmore, hnames⟩ :=
            (ih rest.length (hlength ▸ hshorter) (nodup_append_singleton hearlier hnew) rfl).1 h
          obtain ⟨named, equals, used, ended, hinput, hused⟩ := plain_readRule_eq_ok_iff.1 hrule
          refine ⟨rule :: more, List.append_assoc _ _ _, ?_, hnames⟩
          rw [hinput, List.map_cons, List.map_cons, List.map_append]
          exact .cons rule.name hused hmore
      · rintro ⟨more, rfl, hmore, hnames⟩
        generalize htokens : (placed :: input).map Placed.lexeme = tokens at hmore
        cases hmore with
        | nil => cases htokens
        | @cons name tokens others body more hbody hmore =>
          obtain ⟨⟨lexeme, named⟩, afterName, hinput, rfl, hafterName⟩ :=
            List.map_eq_cons_iff.1 htokens
          obtain ⟨⟨lexeme, equals⟩, afterEquals, rfl, rfl, hafterEquals⟩ :=
            List.map_eq_cons_iff.1 hafterName
          obtain ⟨used, afterBody, rfl, rfl, hafterBody⟩ := List.map_eq_append_iff.1 hafterEquals
          obtain ⟨⟨lexeme, ended⟩, rest, rfl, rfl, rfl⟩ := List.map_eq_cons_iff.1 hafterBody
          have hrule : plain (readRule finish (placed :: input)) = .ok (⟨name, body⟩, rest) :=
            plain_readRule_eq_ok_iff.2 ⟨named, equals, used, ended, hinput, hbody⟩
          have hshorter : rest.length < (placed :: input).length := fits_of_plain hrule
          have hnew : name ∉ earlier.map Rule.name := by
            rw [List.map_append] at hnames
            exact fun hold => (List.nodup_append.1 hnames).2.2 name hold name
              List.mem_cons_self rfl
          rw [hrule]
          show (if (ruleIndex? earlier name).isSome = true then _ else _) = _
          rw [if_neg (mt isSome_ruleIndex?_iff.1 hnew)]
          exact (ih rest.length (hlength ▸ hshorter) (nodup_append_singleton hearlier hnew) rfl).2
            ⟨more, (List.append_assoc earlier [_] more).symm, hmore, hnames⟩

/-! ## Sources

A source is read when its lexemes are those of rules. Put together with the
layout of sources and with the looking up of names, this says which texts are
grammars, and of which rules. -/

/-- **A source of rules**: it is laid out from their tokens, and they have names
of their own. -/
def IsSource (source : List Char) (rules : List (Rule (List Char))) : Prop :=
  ∃ tokens, Laid tokens source ∧ WritesRules tokens rules ∧ (rules.map Rule.name).Nodup

/-- **The rules that are read of a source are those it is a source of.** -/
theorem readRules_lexemes_eq_ok_iff {source : List Char} :
    readRules finish [] (lexemes source source) = .ok rules ↔ IsSource source rules := by
  have hnone : (([] : List (Rule (List Char))).map Rule.name).Nodup := List.nodup_nil
  rw [readRules_eq_ok_iff hnone]
  constructor
  · rintro ⟨more, rfl, hmore, hnames⟩
    have hlaid : Laid ((lexemes source source).map Placed.lexeme) source :=
      laid_lexemes fun placed hplaced =>
        hmore.separable.isToken placed.lexeme (List.mem_map_of_mem hplaced)
    exact ⟨_, hlaid, hmore, hnames⟩
  · rintro ⟨tokens, hlaid, hmore, hnames⟩
    rw [← lexemes_of_laid hlaid hmore.separable.apart] at hmore
    exact ⟨rules, rfl, hmore, hnames⟩

variable {T : Type}

theorem exists_standsFor_iff {terminal? : List Char → Option T} {name : List Char} :
    (∃ symbol, StandsFor rules terminal? name symbol)
      ↔ name ∈ rules.map Rule.name ∨ (terminal? name).isSome = true := by
  constructor
  · rintro ⟨_, h⟩
    cases h with
    | rule hindex => exact .inl (List.mem_of_getElem? hindex)
    | terminal _ hterminal => exact .inr (Option.isSome_of_eq_some hterminal)
  · intro h
    by_cases hrule : name ∈ rules.map Rule.name
    · obtain ⟨index, hindex⟩ := List.mem_iff_getElem?.1 hrule
      exact ⟨_, .rule hindex⟩
    · obtain ⟨found, hfound⟩ := Option.isSome_iff_exists.1 (h.resolve_left hrule)
      exact ⟨_, .terminal hrule hfound⟩

instance : Inhabited (Symbol T) :=
  ⟨.rule 0⟩

/-- The grammar of a source has its rules, with what their names stand for. -/
theorem Grammar.ofSource?_eq_ok_iff {terminal? : List Char → Option T} {source : List Char}
    {grammar : Grammar T} :
    ofSource? terminal? source = .ok grammar
      ↔ ∃ rules meaning, IsSource source rules
        ∧ (∀ name ∈ namesOf rules, StandsFor rules terminal? name (meaning name))
        ∧ grammar.rules = rules.map (Rule.map meaning) := by
  rw [ofSource?]
  constructor
  · intro h
    split at h
    · cases h
    · rename_i rules hrules
      obtain ⟨resolved, hresolved, rfl⟩ := exists_of_map_eq_ok h
      have hsource := readRules_lexemes_eq_ok_iff.1 hrules
      obtain ⟨-, -, -, hnames⟩ := id hsource
      obtain ⟨meaning, hmeaning, rfl⟩ := resolveRules_eq_ok_iff.1 hresolved
      exact ⟨rules, meaning, hsource,
        fun name hname => (lookUp_eq_ok_iff hnames).1 (hmeaning name hname), rfl⟩
  · rintro ⟨rules, meaning, hsource, hmeaning, hgrammar⟩
    obtain ⟨-, -, -, hnames⟩ := id hsource
    have hresolved := resolveRules_of_look fun name hname =>
      (lookUp_eq_ok_iff hnames).2 (hmeaning name hname)
    rw [readRules_lexemes_eq_ok_iff.2 hsource]
    dsimp only
    rw [hresolved, ← hgrammar]
    rfl

/-- **When a source is a grammar, and which.** It is one when it is a source of
rules that use no name but those of rules and terminals. Then it has these rules
in their order, and a name in them stands for the rule of that name, wherever it
is, and otherwise for the terminal. -/
theorem Grammar.ofSource?_iff (terminal? : List Char → Option T) (source : List Char) :
    ((∃ grammar, ofSource? terminal? source = .ok grammar)
        ↔ ∃ rules, IsSource source rules ∧ ∀ name ∈ namesOf rules,
          name ∈ rules.map Rule.name ∨ (terminal? name).isSome = true)
      ∧ ∀ grammar, ofSource? terminal? source = .ok grammar
        ↔ ∃ rules meaning, IsSource source rules
          ∧ (∀ name ∈ namesOf rules, StandsFor rules terminal? name (meaning name))
          ∧ grammar.rules = rules.map (Rule.map meaning) := by
  refine ⟨?_, fun grammar => ofSource?_eq_ok_iff⟩
  constructor
  · rintro ⟨grammar, hgrammar⟩
    obtain ⟨rules, meaning, hsource, hmeaning, -⟩ := ofSource?_eq_ok_iff.1 hgrammar
    exact ⟨rules, hsource, fun name hname => exists_standsFor_iff.1 ⟨_, hmeaning name hname⟩⟩
  · rintro ⟨rules, hsource, hnames⟩
    have hstands : ∀ name, ∃ symbol, name ∈ namesOf rules →
        StandsFor rules terminal? name symbol := by
      intro name
      by_cases hname : name ∈ namesOf rules
      · obtain ⟨symbol, hsymbol⟩ := exists_standsFor_iff.2 (hnames name hname)
        exact ⟨symbol, fun _ => hsymbol⟩
      · exact ⟨default, fun h => absurd h hname⟩
    choose meaning hmeaning using hstands
    exact ⟨⟨rules.map (Rule.map meaning)⟩,
      ofSource?_eq_ok_iff.2 ⟨rules, meaning, hsource, hmeaning, rfl⟩⟩

end Worksheet.Ebnf
