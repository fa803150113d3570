import Worksheet.Proofs.Ebnf.ArenaGrammars

/-!
# Walks through an arena

Whoever walks through the grammar in an arena goes from a rule to its body, from
an expression to its parts and from a name to its rule (`Arena.Reached`), and
looks every id up without asking whether it is there. In an arena that was read
of a source it always is (`Arena.WellFormed.has`): the parts of an expression
have smaller ids, bodies and rules are in range, and each name is that of its
rule.
-/

namespace Worksheet.Ebnf

open Text

variable {S T : Type}

/-! ## Ids in range

That nodes have expressions says already that each stands behind its parts, so
that every part has a smaller id. `Arena.WellFormed` says this of ids alone,
with no mention of expressions. -/

theorem Node.lt_of_tree? {node : Node S} {trees : List (Expr S)} {tree : Expr S}
    (h : node.tree? trees = some tree) : ∀ child ∈ node.children, child < trees.length := by
  have hall : ∀ {parts : List ℕ} {found : List (Expr S)}, parts.mapM (trees[·]?) = some found →
      ∀ part ∈ parts, part < trees.length := by
    intro parts found hfound
    have hboth := (mapM_eq_some_iff.1 hfound).imp fun part tree htree =>
      And.intro (List.getElem?_eq_some_iff.1 htree).1 htree
    exact ((List.forall₂_and_left _ _).1 hboth).1
  cases node with
  | literal text | symbol name => exact fun _ hchild => absurd hchild List.not_mem_nil
  | sequence parts | choice parts =>
    obtain ⟨found, hfound, -⟩ := Option.map_eq_some_iff.1 h
    exact hall hfound
  | optional part | repetition part =>
    obtain ⟨found, hfound, -⟩ := Option.map_eq_some_iff.1 h
    exact List.forall_mem_singleton.2 (List.getElem?_eq_some_iff.1 hfound).1

/-- **A node stands behind its parts** when all nodes have expressions. -/
theorem lt_of_mem_children {nodes : List (Node S)} {trees : List (Expr S)}
    (h : trees? nodes = some trees) {id : ℕ} {node : Node S} (hnode : nodes[id]? = some node) :
    ∀ child ∈ node.children, child < id := by
  induction nodes using List.reverseRecOn generalizing trees with
  | nil => cases hnode
  | append_singleton nodes last ih =>
    rw [trees?_append_singleton] at h
    obtain ⟨earlier, hearlier, h⟩ := Option.bind_eq_some_iff.1 h
    obtain ⟨tree, htree, -⟩ := Option.map_eq_some_iff.1 h
    rcases Nat.lt_or_ge id nodes.length with hlt | hge
    · rw [List.getElem?_append_left hlt] at hnode
      exact ih hearlier hnode
    · rw [List.getElem?_append_right hge, List.getElem?_singleton] at hnode
      split at hnode
      · obtain rfl := Option.some.inj hnode
        have hlength := length_of_trees? hearlier
        intro child hchild
        have hlt := Node.lt_of_tree? htree child hchild
        omega
      · cases hnode

/-- **An arena that holds together**: no id in it is out of range, and parts
come first. So a walk from node to part goes down. -/
structure Arena.WellFormed (arena : Arena T) : Prop where
  body_lt : ∀ rule ∈ arena.rules, rule.body < arena.nodes.length
  child_lt : ∀ ⦃id : ℕ⦄ ⦃node : Node (Symbol T)⦄, arena.nodes[id]? = some node →
    ∀ child ∈ node.children, child < id
  rule_lt : ∀ ⦃id : ℕ⦄, .symbol (.rule id) ∈ arena.nodes → id < arena.rules.length
  rule?_eq_some_iff : ∀ name id,
    arena.rule? name = some id ↔ (arena.rules[id]?).map ArenaRule.name = some name

/-- **An arena that is resolved holds together**, as its nodes have expressions
and its names are those of its rules. -/
theorem Arena.Resolves.wellFormed {arena : Arena T} {terminal? : List Char → Option T}
    {rules : List (Rule (List Char))} {meaning : List Char → Symbol T}
    (h : arena.Resolves terminal? rules meaning) : arena.WellFormed := by
  obtain ⟨nodes, hholds, hnodes⟩ := h.holds
  obtain ⟨trees, htrees, hrules⟩ := rulesOf?_eq_some_iff.1 hholds.spells
  have hnames := map_name_of_rulesOf? hholds.spells
  constructor
  · have hboth := hrules.imp fun rule read hrule =>
      And.intro (List.getElem?_eq_some_iff.1 hrule.2).1 hrule
    rw [hnodes, List.length_map, ← length_of_trees? htrees]
    exact ((List.forall₂_and_left _ _).1 hboth).1
  · intro id node hnode
    rw [hnodes, List.getElem?_map] at hnode
    obtain ⟨raw, hraw, rfl⟩ := Option.map_eq_some_iff.1 hnode
    rw [Node.children_map]
    exact lt_of_mem_children htrees hraw
  · intro id hmem
    rw [hnodes] at hmem
    -- resolving maps every node in its place, so the node is a name that was
    -- looked up
    obtain ⟨raw, hraw, heq⟩ := List.mem_map.1 hmem
    cases raw with
    | symbol name =>
      have hname : name ∈ namesOf rules := by
        rw [← hholds.names]
        exact List.mem_flatMap_of_mem hraw (List.mem_singleton.2 rfl)
      have hlook := h.look name hname
      rw [Node.symbol.inj heq, lookUp_eq_ok_iff hholds.nodup] at hlook
      cases hlook with
      | rule hindex =>
        rw [← hnames] at hindex
        have hlt := (List.getElem?_eq_some_iff.1 hindex).1
        rwa [List.length_map] at hlt
    | _ => cases heq
  · intro name id
    rw [Arena.rule?, hholds.lookup, ruleIndex?_eq_some_iff hholds.nodup, ← hnames,
      List.getElem?_map]

/-! ## Walks

A walk takes an id from a node and goes there, and `Arena.Reached` puts no
condition on that. The invariant of a walk is `Arena.Has`, which each step
keeps in an arena that holds together. -/

/-- A place in an arena: a rule or a node. -/
inductive Place where
  | rule (id : ℕ)
  | node (id : ℕ)

/-- Whether there is something at a place. -/
def Arena.Has (arena : Arena T) : Place → Prop
  | .rule id => id < arena.rules.length
  | .node id => id < arena.nodes.length

/-- **The places that a walk comes to** which starts at a rule by its name. None
of the steps asks whether there is something where it leads. -/
inductive Arena.Reached (arena : Arena T) : Place → Prop
  | named {name : List Char} {id : ℕ} (h : arena.rule? name = some id) : Reached arena (.rule id)
  | body {id : ℕ} {rule : ArenaRule} (h : Reached arena (.rule id))
      (hrule : arena.rules[id]? = some rule) : Reached arena (.node rule.body)
  | part {id part : ℕ} {node : Node (Symbol T)} (h : Reached arena (.node id))
      (hnode : arena.nodes[id]? = some node) (hpart : part ∈ node.children) :
      Reached arena (.node part)
  | use {id rule : ℕ} (h : Reached arena (.node id))
      (hnode : arena.nodes[id]? = some (.symbol (.rule rule))) : Reached arena (.rule rule)

namespace Arena.WellFormed

variable {arena : Arena T}

theorem child_lt_length (h : arena.WellFormed) {node : Node (Symbol T)} (hnode : node ∈ arena.nodes)
    {child : ℕ} (hchild : child ∈ node.children) : child < arena.nodes.length := by
  obtain ⟨id, hid⟩ := List.mem_iff_getElem?.1 hnode
  exact (h.child_lt hid child hchild).trans (List.getElem?_eq_some_iff.1 hid).1

/-- **A walk never leaves the arena**, by induction on the walk. -/
theorem has (h : arena.WellFormed) {place : Place} (hplace : arena.Reached place) :
    arena.Has place := by
  induction hplace with
  | @named name id hname =>
    obtain ⟨rule, hrule, -⟩ := Option.map_eq_some_iff.1 ((h.rule?_eq_some_iff name id).1 hname)
    exact (List.getElem?_eq_some_iff.1 hrule).1
  | body _ hrule => exact h.body_lt _ (List.mem_of_getElem? hrule)
  | part _ hnode hpart => exact h.child_lt_length (List.mem_of_getElem? hnode) hpart
  | use _ hnode => exact h.rule_lt (List.mem_of_getElem? hnode)

end Arena.WellFormed

theorem GrammarError.Within.isBoundary {source : List Char} {position : ℕ} {fault : SyntaxFault}
    (h : (GrammarError.badSyntax position fault).Within source) :
    position ≤ byteLength source ∧ isBoundary source position = true := by
  obtain ⟨rest, hrest⟩ := h
  exact ⟨hrest.add_byteLength ▸ Nat.le_add_right _ _, Option.isSome_of_eq_some hrest⟩

/-- **Sources are read safely into arenas.** No cut is ever inside a character,
and what is wrong with a source is at a boundary of it. If nothing is, each rule
has a body and each expression has its parts before it, names are those of their
rules, and no walk leaves the arena. There are no more nodes and no more rules
than bytes in the source, so that ids of 32 bits are enough for 4 GiB. And the
arena is the grammar that the source spells. -/
theorem Arena.ofSource?_safe (terminal? : List Char → Option T) (source : List Char) :
    (∀ cut, ofSource? terminal? source ≠ .error (.broken cut))
      ∧ (∀ position fault,
        ofSource? terminal? source = .error (.fault (.badSyntax position fault)) →
          position ≤ byteLength source ∧ isBoundary source position = true)
      ∧ (∀ arena, ofSource? terminal? source = .ok arena →
        arena.WellFormed
          ∧ (∀ node ∈ arena.nodes, ∀ child ∈ node.children, child < arena.nodes.length)
          ∧ (∀ place, arena.Reached place → arena.Has place)
          ∧ arena.nodes.length ≤ byteLength source ∧ arena.rules.length ≤ byteLength source)
      ∧ (ofSource? terminal? source).map Arena.grammar?
        = ((Grammar.ofSource? terminal? source).map some).mapError .fault := by
  rcases agrees_ofSource? terminal? source with ⟨error, hfound, hread, hwithin⟩
    | ⟨arena, grammar, hfound, hread, rules, meaning, hresolves, hgrammar, hnodes, hrules⟩
  · rw [hfound, hread]
    refine ⟨nofun, ?_, nofun, rfl⟩
    intro position fault heq
    cases heq
    exact hwithin.isBoundary
  · rw [hfound, hread]
    refine ⟨nofun, nofun, ?_, ?_⟩
    · intro found heq
      cases heq
      have hwell := hresolves.wellFormed
      exact ⟨hwell, fun _ hnode _ hchild => hwell.child_lt_length hnode hchild,
        fun _ hplace => hwell.has hplace, hnodes, hrules⟩
    · change Except.ok arena.grammar? = Except.ok (some grammar)
      rw [hresolves.grammar?_eq, ← hgrammar]

/-- Two rules that use each other, with more than ASCII in a literal and in a
comment. -/
theorem Arena.ofSource?_safe_mutual :
    ∃ arena : Arena Unit,
      ofSource? (fun name => if name = ['x'] then some () else none)
        "a=\x7bb|\"é\"\x7d;b=[a],(*ß*)(x);".toList = .ok arena
      ∧ arena.nodes.length = 8 ∧ arena.WellFormed
      ∧ ∀ place, arena.Reached place → arena.Has place := by
  have hread : (ofSource? (fun name => if name = ['x'] then some () else none)
      "a=\x7bb|\"é\"\x7d;b=[a],(*ß*)(x);".toList).toOption.map (·.nodes.length) = some 8 := by
    decide +kernel
  obtain ⟨arena, harena, hlength⟩ := Option.map_eq_some_iff.1 hread
  have hsource := eq_ok_of_toOption harena
  obtain ⟨-, -, hsafe, -⟩ := ofSource?_safe (fun name => if name = ['x'] then some () else none)
    "a=\x7bb|\"é\"\x7d;b=[a],(*ß*)(x);".toList
  obtain ⟨hwell, -, hhas, -⟩ := hsafe arena hsource
  exact ⟨arena, hsource, hlength, hwell, hhas⟩

end Worksheet.Ebnf
