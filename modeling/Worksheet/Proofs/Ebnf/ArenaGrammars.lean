import Worksheet.Proofs.Ebnf.ArenaExpressions

/-!
# Grammars of arenas

The rules that are read into an arena are those that are read of the lexemes
(`Holds`), with the same names to look up. The nodes hold the names of the rules
in the order in which they are looked up, so both ways of resolving them fail at
the same name (`map_names_resolveNodes`, `map_namesOf_resolveRules`). So a
source gives the same grammar both ways, or the same fault (`agrees_ofSource?`).
-/

namespace Worksheet.Ebnf

open Text

variable {S S' T : Type} {source text : List Char} {offset : ℕ}

/-! ## Rules

Rule by rule, the arena is compared with the list of rules that are read of the
lexemes. The invariant is `Holds`; a rule that is read extends both sides by
one (`Holds.push`), or both refuse its name. -/

/-- **A rule is read alike**, and its body is kept. Its parts agree one after
the other. -/
theorem agrees_ruleAt (hstands : StandsAt source offset text) {nodes : List (Node (List Char))}
    {trees : List (Expr (List Char))} (htrees : trees? nodes = some trees) :
    Agrees source
      (fun found read => found.1 = read.1.name ∧ Leaves source found.2.stop read.2 ∧
        ∃ trees', trees'[found.2.id]? = some read.1.body ∧
          Grown nodes trees found.2.nodes trees' read.1.body.names)
      (ruleAt source offset nodes)
      (plain (readRule (byteLength source) (lexemes source text))) := by
  rw [plain_readRule]
  refine (agrees_nameAt hstands).bind ?_
  rintro ⟨name, named, hnamed⟩ ⟨_, _⟩ ⟨rfl, rest, hrest, rfl⟩
  refine (agrees_expectAt (by decide) hrest).bind ?_
  rintro ⟨start, hstart⟩ ⟨_, _⟩ ⟨inside, hinside, rfl⟩
  refine (alike_alternatives source _ hinside (Nat.le_refl _) htrees).bind ?_
  rintro ⟨body, nodes', ended, hended, hroom⟩ ⟨part, _⟩
    ⟨⟨after, hafter, rfl, -⟩, trees', hid, hgrown⟩
  refine (agrees_expectAt (by decide) hafter).map ?_
  rintro ⟨stop, hstop⟩ ⟨_, _⟩ hleaves
  exact ⟨rfl, hleaves, trees', hid, hgrown⟩

/-- **An arena that is read into holds the rules** that are read: it spells
them, finds each by its name, and has the names they use in their order. -/
structure Holds (rules : List ArenaRule) (names : List (List Char × ℕ))
    (nodes : List (Node (List Char))) (earlier : List (Rule (List Char))) : Prop where
  spells : rulesOf? rules nodes = some earlier
  lookup : ∀ name, names.lookup name = ruleIndex? earlier name
  names : nodes.flatMap Node.names = namesOf earlier
  nodup : (earlier.map Rule.name).Nodup

theorem holds_nil : Holds [] [] [] [] where
  spells := rfl
  lookup _ := rfl
  names := rfl
  nodup := List.nodup_nil

section

variable {rules : List ArenaRule} {nodes : List (Node S)}

/-- Each rule is one of those that are spelled, by its name and its body. -/
theorem rulesOf?_eq_some_iff {spelled : List (Rule S)} :
    rulesOf? rules nodes = some spelled ↔ ∃ trees, trees? nodes = some trees ∧
      List.Forall₂ (fun rule read => rule.name = read.name ∧ trees[rule.body]? = some read.body)
        rules spelled := by
  rw [rulesOf?, Option.bind_eq_some_iff]
  refine exists_congr fun trees => and_congr_right fun _ => ?_
  rw [mapM_eq_some_iff]
  refine iff_of_eq (congrArg (fun related => List.Forall₂ related rules spelled) ?_)
  funext rule ⟨name, body⟩
  rw [Option.map_eq_some_iff, eq_iff_iff]
  constructor
  · rintro ⟨tree, htree, hrule⟩
    obtain ⟨rfl, rfl⟩ := Rule.mk.inj hrule
    exact ⟨rfl, htree⟩
  · rintro ⟨rfl, htree⟩
    exact ⟨body, htree, rfl⟩

theorem map_name_of_rulesOf? {spelled : List (Rule S)} (h : rulesOf? rules nodes = some spelled) :
    rules.map ArenaRule.name = spelled.map Rule.name := by
  obtain ⟨trees, -, hrules⟩ := rulesOf?_eq_some_iff.1 h
  rw [← List.forall₂_eq_eq_eq, List.forall₂_map_left_iff, List.forall₂_map_right_iff]
  exact hrules.imp fun _ _ hrule => hrule.1

end

/-- **One more rule is held**, with the next place, when its body has been kept
and its name is new. -/
theorem Holds.push {rules : List ArenaRule} {names : List (List Char × ℕ)}
    {nodes nodes' : List (Node (List Char))} {earlier : List (Rule (List Char))}
    (h : Holds rules names nodes earlier) {trees trees' : List (Expr (List Char))}
    (htrees : trees? nodes = some trees) {rule : Rule (List Char)} {body : ℕ}
    (hbody : trees'[body]? = some rule.body)
    (hgrown : Grown nodes trees nodes' trees' rule.body.names)
    (hnew : rule.name ∉ earlier.map Rule.name) :
    Holds (rules ++ [⟨rule.name, body⟩]) (names ++ [(rule.name, rules.length)]) nodes'
      (earlier ++ [rule]) where
  spells := by
    obtain ⟨trees, htrees', hrules⟩ := rulesOf?_eq_some_iff.1 h.spells
    obtain rfl := Option.some.inj (htrees.symm.trans htrees')
    refine rulesOf?_eq_some_iff.2 ⟨trees', hgrown.holds, List.rel_append ?_ ?_⟩
    · exact hrules.imp fun _ _ hrule => ⟨hrule.1, hgrown.getElem? hrule.2⟩
    · exact .cons ⟨rfl, hbody⟩ .nil
  lookup name := by
    have hlength : rules.length = earlier.length := by
      have hnames := congrArg List.length (map_name_of_rulesOf? h.spells)
      rwa [List.length_map, List.length_map] at hnames
    rw [List.lookup_append, h.lookup, ruleIndex?, ruleIndex?, List.findIdx?_append,
      List.lookup_cons, List.findIdx?_cons, hlength]
    by_cases hname : name = rule.name
    · subst hname
      simp
    · have hname' : (name == rule.name) = false := beq_eq_false_iff_ne.2 hname
      have hname'' : (rule.name == name) = false := beq_eq_false_iff_ne.2 (Ne.symm hname)
      simp [hname', hname'']
  names := by
    rw [hgrown.names, h.names, namesOf, namesOf, List.flatMap_append, List.flatMap_singleton]
  nodup := nodup_append_singleton h.nodup hnew

theorem readRules_openComment (finish : ℕ) (earlier : List (Rule (List Char))) (position : ℕ) :
    readRules finish earlier [⟨.openComment, position⟩]
      = .error (.badSyntax position .openComment) := by
  rw [readRules_cons, plain_readRule]
  rfl

/-- **The rules are read alike**, into an arena with no more nodes and rules
than bytes, by induction on what is left of the source. -/
theorem agrees_rulesAt {rules : List ArenaRule} {names : List (List Char × ℕ)}
    {nodes : List (Node (List Char))} {earlier : List (Rule (List Char))}
    (hstands : StandsAt source offset text) (hbare : Bare text)
    (hholds : Holds rules names nodes earlier) (hnodes : nodes.length ≤ offset)
    (hrules : rules.length ≤ offset) :
    Agrees source
      (fun found read => Holds found.1 found.2.1 found.2.2 read ∧
        found.2.2.length ≤ byteLength source ∧ found.1.length ≤ byteLength source)
      (rulesAt source rules names nodes offset)
      (readRules (byteLength source) earlier (lexemes source text)) := by
  induction hlength : byteLength text using Nat.strongRecOn
    generalizing offset text rules names nodes earlier with
  | ind length ih =>
    have hend := hstands.add_byteLength
    rw [rulesAt]
    cases text with
    | nil =>
      have hdone : isAtEnd source offset = true := hstands.isAtEnd_eq
      rw [dif_pos hdone, lexemes, readRules]
      rw [byteLength_nil] at hend
      exact .ok ⟨hholds, by dsimp only; omega, by dsimp only; omega⟩
    | cons c rest =>
      have hmore : ¬isAtEnd source offset = true := by
        rw [hstands.isAtEnd_eq]
        exact Bool.false_ne_true
      obtain ⟨trees, htrees, -⟩ := rulesOf?_eq_some_iff.1 hholds.spells
      obtain ⟨lexeme, others, hlexemes, -⟩ := exists_lexeme_of_bare hstands hbare
      rw [dif_neg hmore, hlexemes, readRules_cons, ← hlexemes]
      refine (agrees_ruleAt hstands htrees).bind ?_
      rintro ⟨name, body, nodes', stop, hstop, hroom⟩ ⟨rule, _⟩
        ⟨rfl, ⟨after, hafter, rfl⟩, trees', hbody, hgrown⟩
      dsimp only at hafter hbody hgrown ⊢
      rw [hholds.lookup]
      split
      · exact .fault trivial rfl
      · rename_i hold
        have hpushed := hholds.push htrees hbody hgrown (mt isSome_ruleIndex?_iff.2 hold)
        refine agrees_skipBlank (readRules _ _) hafter (fun _ _ => readRules_openComment ..) ?_
        intro start hle next hstart hnext
        have hstartEnd := hstart.add_byteLength
        have hnodes' : nodes'.length ≤ start := by omega
        have hrules' : (rules ++ [(⟨rule.name, body⟩ : ArenaRule)]).length ≤ start := by
          rw [List.length_append, List.length_singleton]
          omega
        exact ih (byteLength next) (by omega) hstart hnext hpushed hnodes' hrules' rfl

/-! ## Names that are looked up

Both ways of resolving come down to one: `mapM` of the look-up over the names
in their order. So the first name that is not found is the same, although it is
found in a node here and in an expression there. -/

section

variable {look : S → Except GrammarError S'}

namespace Expr

mutual

/-- **An expression looks its names up** from left to right. -/
theorem map_names_resolve (e : Expr S) : (e.resolve look).map names = e.names.mapM look := by
  cases e with
  | literal text => rfl
  | symbol name =>
    rw [names, List.mapM_cons, resolve]
    cases look name <;> rfl
  | sequence parts | choice parts =>
    rw [names, ← map_namesAll_resolveAll parts, resolve]
    cases resolveAll look parts <;> rfl
  | optional part | repetition part =>
    rw [names, ← map_names_resolve part, resolve]
    cases part.resolve look <;> rfl

theorem map_namesAll_resolveAll (parts : List (Expr S)) :
    (resolveAll look parts).map namesAll = (namesAll parts).mapM look := by
  cases parts with
  | nil => rfl
  | cons part parts =>
    rw [namesAll, List.mapM_append, ← map_names_resolve part, ← map_namesAll_resolveAll parts,
      resolveAll]
    cases part.resolve look with
    | error => rfl
    | ok part => cases resolveAll look parts <;> rfl

end

end Expr

/-- **Rules look the names they use up** in their order, up to the first that is
not found. -/
theorem map_namesOf_resolveRules (rules : List (Rule S)) :
    (resolveRules look rules).map namesOf = (namesOf rules).mapM look := by
  induction rules with
  | nil => rfl
  | cons rule rules ih =>
    rw [namesOf, List.flatMap_cons, List.mapM_append, ← Expr.map_names_resolve, resolveRules]
    change _ = (Except.map _ _).bind fun names => ((namesOf rules).mapM look).bind _
    rw [← ih]
    cases rule.body.resolve look with
    | error => rfl
    | ok body => cases resolveRules look rules <;> rfl

theorem Node.map_names_resolve (node : Node S) :
    (node.resolve look).map names = node.names.mapM look := by
  cases node with
  | symbol name =>
    rw [names, List.mapM_cons, resolve]
    cases look name <;> rfl
  | _ => rfl

/-- **Nodes look their names up** in their order. It is the order of the
expressions, as a node that has a name has no parts. -/
theorem map_names_resolveNodes (look : S → Except GrammarError S') (nodes : List (Node S)) :
    (nodes.mapM (Node.resolve look)).map (·.flatMap Node.names)
      = (nodes.flatMap Node.names).mapM look := by
  induction nodes with
  | nil => rfl
  | cons node nodes ih =>
    rw [List.flatMap_cons, List.mapM_append, ← node.map_names_resolve, ← ih, List.mapM_cons]
    cases node.resolve look with
    | error => rfl
    | ok node => cases nodes.mapM (Node.resolve look) <;> rfl

end

/-- A name that is not found is the only fault there is. -/
theorem exists_of_lookUp_eq_error {rules : List (Rule (List Char))}
    {terminal? : List Char → Option T} {names : List (List Char)} {error : GrammarError}
    (h : names.mapM (lookUp rules terminal?) = .error error) :
    ∃ name, error = .unknownName name := by
  induction names with
  | nil => cases h
  | cons name names ih =>
    rw [List.mapM_cons] at h
    cases hname : lookUp rules terminal? name with
    | error e =>
      rw [hname] at h
      cases h
      unfold lookUp at hname
      split at hname <;> cases hname
      exact ⟨name, rfl⟩
    | ok symbol =>
      rw [hname] at h
      cases hnames : names.mapM (lookUp rules terminal?) with
      | error e =>
        rw [hnames] at h
        cases h
        exact ih hnames
      | ok symbols =>
        rw [hnames] at h
        cases h

/-! ## Names that are found

Once every name is found, resolving puts what the names stand for in their
places and leaves the rest as it is. Taking the expressions of nodes commutes
with that (`trees?_map`). -/

def Node.map (f : S → S') : Node S → Node S'
  | .literal text => .literal text
  | .symbol name => .symbol (f name)
  | .sequence parts => .sequence parts
  | .choice parts => .choice parts
  | .optional part => .optional part
  | .repetition part => .repetition part

theorem Node.children_map (f : S → S') (node : Node S) : (node.map f).children = node.children := by
  cases node <;> rfl

theorem Expr.mapAll_eq (f : S → S') (parts : List (Expr S)) :
    mapAll f parts = parts.map (map f) := by
  induction parts with
  | nil => rfl
  | cons part parts ih => rw [mapAll, ih, List.map_cons]

theorem mapM_map_some {α β γ : Type} (f : α → Option β) (g : β → γ) (as : List α) :
    as.mapM (fun a => (f a).map g) = (as.mapM f).map (List.map g) := by
  induction as with
  | nil => rfl
  | cons a as ih =>
    rw [List.mapM_cons, List.mapM_cons, ih]
    cases f a with
    | none => rfl
    | some b => cases as.mapM f <;> rfl

/-- With other names in it, a node is the expression with other names in it. -/
theorem Node.tree?_map (f : S → S') (trees : List (Expr S)) (node : Node S) :
    (node.map f).tree? (trees.map (Expr.map f)) = (node.tree? trees).map (Expr.map f) := by
  cases node with
  | literal text | symbol name => rfl
  | sequence parts | choice parts =>
    simp only [map, tree?, List.getElem?_map, mapM_map_some, Option.map_map]
    refine congrArg (Option.map · _) (funext fun found => ?_)
    simp only [Function.comp_apply, Expr.map, Expr.mapAll_eq]
  | optional part | repetition part =>
    simp only [map, tree?, List.getElem?_map, Option.map_map]
    rfl

theorem trees?_map (f : S → S') (nodes : List (Node S)) :
    trees? (nodes.map (Node.map f)) = (trees? nodes).map (List.map (Expr.map f)) := by
  induction nodes using List.reverseRecOn with
  | nil => rfl
  | append_singleton nodes node ih =>
    rw [List.map_append, List.map_singleton, trees?_append_singleton, ih,
      trees?_append_singleton]
    cases trees? nodes with
    | none => rfl
    | some trees =>
      simp only [Option.map_some, Option.bind_some, Node.tree?_map, Option.map_map]
      refine congrArg (Option.map · _) (funext fun tree => ?_)
      simp only [Function.comp_apply, List.map_append, List.map_singleton]

/-- **With other names in them, nodes spell the rules** with other names in
them. -/
theorem rulesOf?_map (f : S → S') {rules : List ArenaRule} {nodes : List (Node S)}
    {spelled : List (Rule S)} (h : rulesOf? rules nodes = some spelled) :
    rulesOf? rules (nodes.map (Node.map f)) = some (spelled.map (Rule.map f)) := by
  obtain ⟨trees, htrees, hrules⟩ := rulesOf?_eq_some_iff.1 h
  refine rulesOf?_eq_some_iff.2 ⟨trees.map (Expr.map f), ?_, ?_⟩
  · rw [trees?_map, htrees]
    rfl
  · rw [List.forall₂_map_right_iff]
    refine hrules.imp fun rule read ⟨hname, hbody⟩ => ⟨hname, ?_⟩
    rw [List.getElem?_map, hbody]
    rfl

theorem resolveNodes_of_look {look : S → Except GrammarError S'} {meaning : S → S'}
    {nodes : List (Node S)}
    (h : ∀ name ∈ nodes.flatMap Node.names, look name = .ok (meaning name)) :
    nodes.mapM (Node.resolve look) = .ok (nodes.map (Node.map meaning)) := by
  induction nodes with
  | nil => rfl
  | cons node nodes ih =>
    rw [List.flatMap_cons, List.forall_mem_append] at h
    have hnode : node.resolve look = .ok (node.map meaning) := by
      cases node with
      | symbol name =>
        rw [Node.resolve, h.1 name (List.mem_singleton.2 rfl)]
        rfl
      | _ => rfl
    rw [List.mapM_cons, hnode, ih h.2]
    rfl

/-! ## Sources -/

/-- **An arena is resolved**: it holds rules, with what each of their names
stands for in its place. -/
structure Arena.Resolves (arena : Arena T) (terminal? : List Char → Option T)
    (rules : List (Rule (List Char))) (meaning : List Char → Symbol T) : Prop where
  holds : ∃ nodes, Holds arena.rules arena.names nodes rules ∧
    arena.nodes = nodes.map (Node.map meaning)
  look : ∀ name ∈ namesOf rules, lookUp rules terminal? name = .ok (meaning name)

/-- An arena that is resolved is the grammar of the rules. -/
theorem Arena.Resolves.grammar?_eq {arena : Arena T} {terminal? : List Char → Option T}
    {rules : List (Rule (List Char))} {meaning : List Char → Symbol T}
    (h : arena.Resolves terminal? rules meaning) :
    arena.grammar? = some ⟨rules.map (Rule.map meaning)⟩ := by
  obtain ⟨nodes, hholds, hnodes⟩ := h.holds
  rw [Arena.grammar?, hnodes, rulesOf?_map meaning hholds.spells]
  rfl

/-- **Names are resolved alike** in the nodes and in the rules they hold, since
both look up the same names in the same order. -/
theorem Holds.agrees_resolve {rules : List ArenaRule} {names : List (List Char × ℕ)}
    {nodes : List (Node (List Char))} {earlier : List (Rule (List Char))}
    (h : Holds rules names nodes earlier) (terminal? : List Char → Option T) :
    Agrees source
      (fun found resolved => ∃ meaning,
        (∀ name ∈ namesOf earlier, lookUp earlier terminal? name = .ok (meaning name)) ∧
          found = nodes.map (Node.map meaning) ∧ resolved = earlier.map (Rule.map meaning))
      ((nodes.mapM (Node.resolve (lookUpIn names terminal?))).mapError .fault)
      (resolveRules (lookUp earlier terminal?) earlier) := by
  have hlook : lookUpIn names terminal? = lookUp earlier terminal? := by
    funext name
    rw [lookUpIn, lookUp, h.lookup]
    cases ruleIndex? earlier name <;> cases terminal? name <;> rfl
  have hnames := map_names_resolveNodes (lookUp earlier terminal?) nodes
  rw [h.names, ← map_namesOf_resolveRules earlier] at hnames
  rw [hlook]
  cases hresolved : resolveRules (lookUp earlier terminal?) earlier with
  | error error =>
    have herror : (namesOf earlier).mapM (lookUp earlier terminal?) = .error error := by
      rw [← map_namesOf_resolveRules, hresolved]
      rfl
    obtain ⟨name, rfl⟩ := exists_of_lookUp_eq_error herror
    rw [hresolved] at hnames
    rw [eq_error_of_map hnames]
    exact .fault trivial rfl
  | ok resolved =>
    obtain ⟨meaning, hmeaning, rfl⟩ := resolveRules_eq_ok_iff.1 hresolved
    rw [resolveNodes_of_look (h.names ▸ hmeaning)]
    exact .ok ⟨meaning, hmeaning, rfl, rfl⟩

/-- **A source gives the same grammar** in an arena as of its lexemes, **or the
same fault**. -/
theorem agrees_ofSource? (terminal? : List Char → Option T) (source : List Char) :
    Agrees source
      (fun arena grammar => ∃ rules meaning, arena.Resolves terminal? rules meaning ∧
        grammar.rules = rules.map (Rule.map meaning) ∧
        arena.nodes.length ≤ byteLength source ∧ arena.rules.length ≤ byteLength source)
      (Arena.ofSource? terminal? source) (Grammar.ofSource? terminal? source) := by
  have hread : Grammar.ofSource? terminal? source
      = (readRules (byteLength source) [] (lexemes source source)).bind fun rules =>
        (resolveRules (lookUp rules terminal?) rules).map Grammar.mk := by
    rw [Grammar.ofSource?]
    cases readRules (byteLength source) [] (lexemes source source) <;> rfl
  rw [hread]
  refine agrees_skipBlank (fun input => (readRules _ [] input).bind _) (standsAt_zero source)
    (fun position _ => ?_) fun start _ rest hstart hbare => ?_
  · rw [readRules_openComment]
    rfl
  refine (agrees_rulesAt hstart hbare holds_nil (Nat.zero_le _) (Nat.zero_le _)).bind ?_
  rintro ⟨rules, names, nodes⟩ earlier ⟨hholds, hnodes, hrules⟩
  refine (hholds.agrees_resolve terminal?).map ?_
  rintro _ _ ⟨meaning, hmeaning, rfl, rfl⟩
  refine ⟨earlier, meaning, ⟨⟨nodes, hholds, rfl⟩, hmeaning⟩, rfl, ?_, hrules⟩
  rwa [List.length_map]

end Worksheet.Ebnf
