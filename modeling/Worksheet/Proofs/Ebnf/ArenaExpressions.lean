import Worksheet.Proofs.Ebnf.ArenaReading

/-!
# Expressions in an arena

An arena only grows while it is read into (`Grown`): the expressions that are
there keep their ids, and what is added stands behind its parts. So the id that
a reader gives is that of the expression that is read of the lexemes (`Keeps`),
at every level (`alike_alternatives`), and the nodes that are added hold its
names from left to right.
-/

namespace Worksheet.Ebnf

open Text

variable {S : Type} {source text rest : List Char} {offset : ℕ}

theorem mapM_eq_some_iff {α β : Type} {f : α → Option β} {as : List α} {bs : List β} :
    as.mapM f = some bs ↔ List.Forall₂ (fun a b => f a = some b) as bs := by
  induction as generalizing bs with
  | nil =>
    rw [List.forall₂_nil_left_iff]
    exact ⟨fun h => (Option.some.inj h).symm, fun h => congrArg some h.symm⟩
  | cons a as ih =>
    rw [List.mapM_cons, List.forall₂_cons_left_iff]
    constructor
    · intro h
      obtain ⟨b, hb, h⟩ := Option.bind_eq_some_iff.1 h
      obtain ⟨bs, hbs, h⟩ := Option.bind_eq_some_iff.1 h
      exact ⟨b, bs, hb, ih.1 hbs, (Option.some.inj h).symm⟩
    · rintro ⟨b, bs, hb, hbs, rfl⟩
      rw [hb, ih.2 hbs]
      rfl

/-! ## Growing

`Grown` is what a reader does to an arena: the nodes that were there keep their
places and their expressions, those that were added have expressions, too, and
the names they hold are the names that were read. It is transitive, and one
`Found.push` is an instance of it. -/

def Node.names : Node S → List S
  | .symbol name => [name]
  | _ => []

theorem trees?_append_singleton (nodes : List (Node S)) (node : Node S) :
    trees? (nodes ++ [node])
      = (trees? nodes).bind fun trees => (node.tree? trees).map fun tree => trees ++ [tree] := by
  simp only [trees?, List.foldlM_append, List.foldlM_cons, List.foldlM_nil, bind_pure]
  rfl

theorem length_of_trees? {nodes : List (Node S)} {trees : List (Expr S)}
    (h : trees? nodes = some trees) : trees.length = nodes.length := by
  induction nodes using List.reverseRecOn generalizing trees with
  | nil =>
    cases h
    rfl
  | append_singleton nodes node ih =>
    rw [trees?_append_singleton] at h
    obtain ⟨trees, htrees, h⟩ := Option.bind_eq_some_iff.1 h
    obtain ⟨tree, -, rfl⟩ := Option.map_eq_some_iff.1 h
    rw [List.length_append, List.length_append, ih htrees]
    rfl

/-- **Nodes and their expressions grow** by such that hold some names. Being a
prefix is what lets each expression keep its id. -/
structure Grown (nodes : List (Node S)) (trees : List (Expr S)) (nodes' : List (Node S))
    (trees' : List (Expr S)) (names : List S) : Prop where
  holds : trees? nodes' = some trees'
  keeps : trees <+: trees'
  names : nodes'.flatMap Node.names = nodes.flatMap Node.names ++ names

namespace Grown

variable {nodes nodes' nodes'' : List (Node S)} {trees trees' trees'' : List (Expr S)}
  {names names' : List S}

theorem refl (h : trees? nodes = some trees) : Grown nodes trees nodes trees [] :=
  ⟨h, List.prefix_refl trees, (List.append_nil _).symm⟩

theorem trans (h : Grown nodes trees nodes' trees' names)
    (h' : Grown nodes' trees' nodes'' trees'' names') :
    Grown nodes trees nodes'' trees'' (names ++ names') :=
  ⟨h'.holds, h.keeps.trans h'.keeps, by rw [h'.names, h.names, List.append_assoc]⟩

/-- One more node has the next id, and what `Node.tree?` says is its
expression. -/
theorem push {node : Node S} {tree : Expr S} (h : Grown nodes trees nodes' trees' names)
    (hnode : node.tree? trees' = some tree) :
    Grown nodes trees (nodes' ++ [node]) (trees' ++ [tree]) (names ++ node.names) ∧
      (trees' ++ [tree])[nodes'.length]? = some tree := by
  refine ⟨h.trans ⟨?_, List.prefix_append .., ?_⟩, ?_⟩
  · rw [trees?_append_singleton, h.holds, Option.bind_some, hnode]
    rfl
  · rw [List.flatMap_append, List.flatMap_singleton]
  · rw [← length_of_trees? h.holds, List.getElem?_concat_length]

theorem getElem? (h : Grown nodes trees nodes' trees' names) {id : ℕ} {tree : Expr S}
    (hid : trees[id]? = some tree) : trees'[id]? = some tree := by
  obtain ⟨more, rfl⟩ := h.keeps
  rwa [List.getElem?_append_left (List.getElem?_eq_some_iff.1 hid).1]

end Grown

/-! ## What is kept -/

/-- Where the readers of a level leave off. Behind several parts blanks have
been passed over already, in search of another mark. -/
def LeavesAt (source : List Char) (level : Level) (stop : ℕ) (left : List Placed) : Prop :=
  ∃ rest, StandsAt source stop rest ∧ left = lexemes source rest ∧ (level ≠ .factor → Bare rest)

/-- **What was found is kept**: the id that was found is that of the expression
that was read, and the arena has grown by its names. -/
def Keeps (source : List Char) (level : Level) (nodes : List (Node (List Char)))
    (trees : List (Expr (List Char))) {count : ℕ} (found : Found offset count)
    (read : Expr (List Char) × List Placed) : Prop :=
  LeavesAt source level found.stop read.2 ∧ ∃ trees', trees'[found.id]? = some read.1 ∧
    Grown nodes trees found.nodes trees' read.1.names

/-- **The further expressions are kept**, each by its id. -/
def KeepsMore (source : List Char) (nodes : List (Node (List Char)))
    (trees : List (Expr (List Char))) {count : ℕ} (found : FoundMore offset count)
    (read : List (Expr (List Char)) × List Placed) : Prop :=
  (∃ rest, StandsAt source found.stop rest ∧ read.2 = lexemes source rest ∧ Bare rest) ∧
    ∃ trees', found.ids.mapM (trees'[·]?) = some read.1 ∧
      Grown nodes trees found.nodes trees' (Expr.namesAll read.1)

/-- **Expressions of a level are read alike** from a rest on, if it is not too
long: by `readAt` and of the lexemes of the rest. -/
def Alike (source : List Char) (level : Level) (size : ℕ) : Prop :=
  ∀ ⦃offset text nodes trees⦄, StandsAt source offset text → byteLength text ≤ size →
    trees? nodes = some trees →
    Agrees source (Keeps source level nodes trees) (readAt source level offset nodes)
      (plain (readLevel (byteLength source) level (lexemes source text)))

/-! ## One level on another

Sequences of factors and alternatives of sequences differ in their mark and
their node only. `Arranged` collects what both have in common, so that each
argument about several parts with marks between them is made once. -/

/-- **What expressions of one level make up is kept like that**: the node of
several is theirs. It adds to `Stacked` what the arena has to do with it. -/
structure Arranged (finish : ℕ) (mark : Char) (lower upper : Level)
    (wrap : List (Expr (List Char)) → Expr (List Char))
    (readMore : List Placed → Except GrammarError (List (Expr (List Char)) × List Placed))
    (node : List ℕ → Node (List Char)) : Prop
    extends Stacked finish mark lower upper wrap readMore where
  parts : upper.parts? = some (lower, mark, node)
  mem : mark ∈ marks
  /-- Nothing is read before any other lexeme. -/
  stops : ∀ placed input, placed.lexeme ≠ .mark mark → placed.lexeme ≠ .openComment →
    readMore (placed :: input) = .ok ([], placed :: input)
  /-- A comment without an end is found by those that come first. -/
  openComment : lower = .factor → ∀ position,
    readMore [⟨.openComment, position⟩] = .error (.badSyntax position .openComment)
  tree : ∀ ids trees, (node ids).tree? trees = (ids.mapM (trees[·]?)).map wrap
  names : ∀ ids, (node ids).names = []
  wrap_names : ∀ parts, (wrap parts).names = Expr.namesAll parts

theorem arranged_sequence (finish : ℕ) : Arranged finish ',' .factor .sequence .sequence
    (fun input => plain (readMoreFactors finish input)) .sequence where
  toStacked := stacked_sequence finish
  parts := rfl
  mem := by decide
  stops placed input hmark hopen := by
    rw [plain_readMoreFactors_cons, if_neg hmark, if_neg hopen]
  openComment _ position := plain_readMoreFactors_cons _ _
  tree _ _ := rfl
  names _ := rfl
  wrap_names _ := rfl

theorem arranged_alternatives (finish : ℕ) : Arranged finish '|' .sequence .alternatives .choice
    (fun input => plain (readMoreSequences finish input)) .choice where
  toStacked := stacked_alternatives finish
  parts := rfl
  mem := by decide
  stops placed input hmark _ := by rw [plain_readMoreSequences_cons, if_neg hmark]
  openComment := nofun
  tree _ _ := rfl
  names _ := rfl
  wrap_names _ := rfl

section

variable {mark : Char} {lower upper : Level} {wrap : List (Expr (List Char)) → Expr (List Char)}
  {readMore : List Placed → Except GrammarError (List (Expr (List Char)) × List Placed)}
  {node : List ℕ → Node (List Char)} {size : ℕ}

/-- **Expressions behind marks are read alike**, by induction on the length of
the rest, if those of the level below are. -/
theorem Arranged.agrees_more (h : Arranged (byteLength source) mark lower upper wrap readMore node)
    (hlower : Alike source lower size) ⦃offset : ℕ⦄ ⦃text : List Char⦄
    ⦃nodes : List (Node (List Char))⦄ ⦃trees : List (Expr (List Char))⦄
    (hstands : StandsAt source offset text) (hsize : byteLength text ≤ size)
    (hbare : lower ≠ .factor → Bare text) (htrees : trees? nodes = some trees) :
    Agrees source (KeepsMore source nodes trees) (readMoreAt source lower mark offset nodes)
      (readMore (lexemes source text)) := by
  induction hlength : byteLength text using Nat.strongRecOn
    generalizing offset text nodes trees with
  | ind length ih =>
    have hend := hstands.add_byteLength
    rw [readMoreAt]
    refine agrees_skipBlank readMore hstands ?_ ?_
    · intro position hlexemes
      by_cases hfactor : lower = .factor
      · exact h.openComment hfactor position
      · have hhead := head_of_bare hstands (hbare hfactor)
        rw [hlexemes] at hhead
        exact absurd rfl (hhead _ rfl).1
    · intro start hle rest hstart hrest
      dsimp only
      by_cases hbyte : byteAt? source start = some mark
      · -- another part follows the mark: the lower level reads it, and the
        -- induction, on the bytes left, reads the rest of the list
        obtain ⟨inside, rfl, hinside⟩ := exists_of_byteAt? hstart (lt_of_mem_marks h.mem) hbyte
        have hinsideEnd := hinside.add_byteLength
        rw [dif_pos hbyte, lexemes_mark h.mem hstart hrest, h.cons _ _ rfl]
        refine (hlower hinside (by omega) htrees).bind ?_
        rintro ⟨id, nodes', stop, hstop, hroom⟩ ⟨next, _⟩
          ⟨⟨after, hafter, rfl, hleft⟩, trees', hid, hgrown⟩
        dsimp only at hafter hid hgrown ⊢
        have hafterEnd := hafter.add_byteLength
        refine (ih (byteLength after) (by omega) hafter (by omega) hleft hgrown.holds rfl).map ?_
        rintro ⟨ids, nodes'', final, hfinal, hroom'⟩ ⟨more, left⟩
          ⟨hleaves, trees'', hids, hgrown'⟩
        refine ⟨hleaves, trees'', ?_, hgrown.trans hgrown'⟩
        rw [List.mapM_cons, hgrown'.getElem? hid, hids]
        rfl
      · rw [dif_neg hbyte]
        -- no mark stands here, so the list ends, on the lexemes as at the
        -- offset
        have hnone : readMore (lexemes source rest) = .ok ([], lexemes source rest) := by
          have hhead := head_of_bare hstart hrest
          cases hlexemes : lexemes source rest with
          | nil => exact h.nil
          | cons placed others =>
            rw [hlexemes] at hhead
            obtain ⟨hopen, hother, -⟩ := hhead placed rfl
            refine h.stops _ _ (fun heq => hbyte ?_) hopen
            exact (hstart.byteAt?_eq_some_iff (lt_of_mem_marks h.mem)).2 (hother mark heq)
        rw [hnone]
        exact .ok ⟨⟨rest, hstart, rfl, hrest⟩, trees, rfl, .refl htrees⟩

/-- What is gathered is kept: the only expression as it is, or the node of all
of them. `gather` and `collapse` tell the two apart by the same test. -/
theorem Arranged.keeps_gather {finish : ℕ} (h : Arranged finish mark lower upper wrap readMore node)
    {nodes : List (Node (List Char))} {trees : List (Expr (List Char))} {count : ℕ}
    {first : Found offset count} {more : FoundMore first.stop first.nodes.length}
    {part : Expr (List Char)} {parts : List (Expr (List Char))} {left : List Placed}
    {trees' : List (Expr (List Char))} (hid : trees'[first.id]? = some part)
    (hgrown : Grown nodes trees first.nodes trees' part.names)
    (hmore : KeepsMore source first.nodes trees' more (parts, left)) :
    Keeps source upper nodes trees (gather node first more)
      (collapse wrap (part :: parts), left) := by
  obtain ⟨⟨rest, hrest, hleft, hbare⟩, trees'', hids, hgrown'⟩ := hmore
  have hboth := hgrown.trans hgrown'
  have hid' := hgrown'.getElem? hid
  have hleaves : LeavesAt source upper more.stop left := ⟨rest, hrest, hleft, fun _ => hbare⟩
  dsimp only at hids hboth
  unfold gather
  dsimp only
  cases parts with
  | nil =>
    -- a list of one is not wrapped, in the tree as in the arena
    have hnil : more.ids = [] := List.forall₂_nil_right_iff.1 (mapM_eq_some_iff.1 hids)
    rw [dif_pos hnil]
    rw [Expr.namesAll, List.append_nil] at hboth
    exact ⟨hleaves, trees'', hid', hboth⟩
  | cons next parts =>
    have hsome : more.ids ≠ [] := by
      intro hnil
      rw [hnil] at hids
      cases hids
    have htree : (node (first.id :: more.ids)).tree? trees''
        = some (wrap (part :: next :: parts)) := by
      rw [h.tree, List.mapM_cons, hid', hids]
      rfl
    obtain ⟨hpushed, hlast⟩ := hboth.push htree
    rw [h.names, List.append_nil] at hpushed
    rw [dif_neg hsome]
    refine ⟨hleaves, _, hlast, ?_⟩
    rw [collapse, h.wrap_names, Expr.namesAll]
    · exact hpushed
    · exact nofun

/-- **A level is read alike when the level below is.** -/
theorem Arranged.alike (h : Arranged (byteLength source) mark lower upper wrap readMore node)
    (hlower : Alike source lower size) : Alike source upper size := by
  intro offset text nodes trees hstands hsize htrees
  have hend := hstands.add_byteLength
  rw [readAt, h.whole]
  split
  · rename_i heq
    cases h.parts.symm.trans heq
    refine (hlower hstands hsize htrees).bind ?_
    rintro first ⟨part, _⟩ ⟨⟨after, hafter, rfl, hleft⟩, trees', hid, hgrown⟩
    have hlt := first.lt
    have hafterEnd := hafter.add_byteLength
    refine (h.agrees_more hlower hafter (by omega) hleft hgrown.holds).map ?_
    rintro more ⟨parts, left⟩ hmore
    exact h.keeps_gather hid hgrown hmore
  · rename_i heq
    cases h.parts.symm.trans heq

end

/-! ## Factors

A factor is a literal, a name or a bracket. Only the bracket is recursive, and
what it encloses is shorter by the bracket, which is where the induction of
`alike_alternatives` goes down. -/

/-- A node is what a bracket makes of its expression, or there is none for what
is left as it is. -/
def Wraps : Option (ℕ → Node (List Char)) → (Expr (List Char) → Expr (List Char)) → Prop
  | none, wrap => wrap = id
  | some node, wrap => ∀ ⦃id trees part⦄, trees[id]? = some part →
    (node id).tree? trees = some (wrap part) ∧ (node id).names = []
      ∧ (wrap part).names = part.names

theorem exists_of_bracket? {opening close : Char} {node : Option (ℕ → Node (List Char))}
    (h : bracket? opening = some (node, close)) :
    ∃ wrap, (opening, wrap, close) ∈ brackets ∧ opening ∈ marks ∧ close ∈ marks
      ∧ Wraps node wrap := by
  unfold bracket? at h
  split at h
  · rename_i hopening
    cases hopening
    cases h
    refine ⟨.optional, .head _, by decide, by decide, fun id trees part hid => ?_⟩
    rw [Node.tree?, hid]
    exact ⟨rfl, rfl, rfl⟩
  · split at h
    · rename_i hopening
      cases hopening
      cases h
      refine ⟨.repetition, .tail _ (.head _), by decide, by decide, fun id trees part hid => ?_⟩
      rw [Node.tree?, hid]
      exact ⟨rfl, rfl, rfl⟩
    · split at h
      · rename_i hopening
        cases hopening
        cases h
        exact ⟨id, .tail _ (.tail _ (.head _)), by decide, by decide, rfl⟩
      · cases h

/-- **A bracket is closed alike**, and the node of it, if there is one, is
added. -/
theorem agrees_closeAt {node : Option (ℕ → Node (List Char))}
    {wrap : Expr (List Char) → Expr (List Char)} (hwrap : Wraps node wrap) {mark : Char}
    (hmark : mark ∈ marks) {nodes : List (Node (List Char))} {trees : List (Expr (List Char))}
    {count start : ℕ} (hstart : offset ≤ start) {inner : Found (start + 1) count}
    {part : Expr (List Char)} {left : List Placed}
    (hinner : Keeps source .alternatives nodes trees inner (part, left)) :
    Agrees source (Keeps source .factor nodes trees) (closeAt source node mark start hstart inner)
      ((plain (readMark (byteLength source) mark left)).map fun after => (wrap part, after.2)) := by
  obtain ⟨⟨rest, hrest, rfl, -⟩, trees', hid, hgrown⟩ := hinner
  refine (agrees_expectAt hmark hrest).map ?_
  rintro ⟨stop, hstop⟩ ⟨_, _⟩ ⟨after, hafter, rfl⟩
  have hleaves : LeavesAt source .factor stop (lexemes source after) :=
    ⟨after, hafter, rfl, fun hne => absurd rfl hne⟩
  cases node with
  | none =>
    obtain rfl : wrap = id := hwrap
    exact ⟨hleaves, trees', hid, hgrown⟩
  | some node =>
    obtain ⟨htree, hnode, hnames⟩ := hwrap hid
    obtain ⟨hpushed, hlast⟩ := hgrown.push htree
    rw [hnode, List.append_nil] at hpushed
    refine ⟨hleaves, _, hlast, ?_⟩
    rw [hnames]
    exact hpushed

/-- What is neither a literal nor in brackets should be a name. -/
theorem plain_readFactor_of_bare (hstands : StandsAt source offset text) (hbare : Bare text)
    (hquote : text.head? ≠ some '"') (hbracket : text.head?.bind bracket? = none) (finish : ℕ) :
    plain (readFactor finish (lexemes source text))
      = (plain (readName finish (lexemes source text))).map fun name =>
        (.symbol name.1, name.2) := by
  cases text with
  | nil =>
    rw [lexemes, readFactor]
    rfl
  | cons c rest =>
    have hc : c ≠ '"' := fun heq => hquote (congrArg some heq)
    rw [lexemes_of_bare hbare, if_neg hc]
    by_cases hstart : isNameStart c = true
    · rw [if_pos hstart, readFactor]
      rfl
    · have hne : c ≠ '[' ∧ c ≠ '{' ∧ c ≠ '(' := by
        refine ⟨?_, ?_, ?_⟩ <;> rintro rfl <;> cases hbracket
      rw [if_neg hstart, plain_readName_of_ne, readFactor]
      · dsimp only
        -- of the eight shapes the reader of factors tells apart, only the last
        -- is left
        split
        case h_8 => rfl
        all_goals
          rename_i heq
          cases heq
        · exact absurd rfl hne.1
        · exact absurd rfl hne.2.1
        · exact absurd rfl hne.2.2
      · intro placed hplaced name hname
        rw [← Option.some.inj hplaced] at hname
        cases hname

/-- **Factors are read alike**, if the alternatives in their brackets are, which
are shorter. -/
theorem alike_factor {size : ℕ} (h : ∀ shorter < size, Alike source .alternatives shorter) :
    Alike source .factor size := by
  intro offset text nodes trees hstands hsize htrees
  have hend := hstands.add_byteLength
  rw [readAt]
  split
  · rename_i heq
    cases heq
  refine agrees_skipBlank (fun input => plain (readFactor _ input)) hstands ?_ ?_
  · intro position _
    rw [readFactor]
    rfl
  intro start hle rest hstart hbare
  dsimp only
  by_cases hquote : byteAt? source start = some '"'
  · obtain ⟨inside, rfl, -⟩ := exists_of_byteAt? hstart (by decide) hquote
    rw [if_pos hquote, ← bind_pure (plain _)]
    refine (agrees_literalAt hstart (byteLength source)).bind ?_
    rintro ⟨text, stop, hstop⟩ ⟨_, _⟩ ⟨rfl, after, hafter, rfl⟩
    have htree : (Node.literal text).tree? trees = some (.literal text) := rfl
    obtain ⟨hpushed, hlast⟩ := (Grown.refl htrees).push htree
    exact .ok ⟨⟨after, hafter, rfl, fun hne => absurd rfl hne⟩, _, hlast, hpushed⟩
  rw [if_neg hquote]
  split
  · rename_i node mark hbracket
    -- between brackets the reader of alternatives goes on, over a text shorter
    -- than this one
    obtain ⟨c, hc, hbracket⟩ := Option.bind_eq_some_iff.1 hbracket
    obtain ⟨wrap, hmem, hopening, hclose, hwrap⟩ := exists_of_bracket? hbracket
    obtain ⟨inside, rfl, hinside⟩ := exists_of_byteAt? hstart (lt_of_mem_marks hopening) hc
    have hinsideEnd := hinside.add_byteLength
    rw [lexemes_mark hopening hstart hbare, plain_readFactor_of_mem_brackets hmem,
      plain_readEnclosed]
    refine (h (byteLength inside) (by omega) hinside (Nat.le_refl _) htrees).bind ?_
    rintro inner ⟨part, left⟩ hkeeps
    exact agrees_closeAt hwrap hclose hle hkeeps
  · rename_i hbracket
    have hhead : rest.head? ≠ some '"' := fun hhead =>
      hquote ((hstart.byteAt?_eq_some_iff (by decide)).2 hhead)
    have hnone : rest.head?.bind bracket? = none := by
      refine Option.eq_none_iff_forall_ne_some.2 fun ⟨node, mark⟩ hsome => ?_
      obtain ⟨c, hc, hsome⟩ := Option.bind_eq_some_iff.1 hsome
      obtain ⟨-, -, hopening, -⟩ := exists_of_bracket? hsome
      rw [(hstart.byteAt?_eq_some_iff (lt_of_mem_marks hopening)).2 hc, Option.bind_some,
        hsome] at hbracket
      cases hbracket
    rw [plain_readFactor_of_bare hstart hbare hhead hnone]
    refine (agrees_nameAt hstart).map ?_
    rintro ⟨text, stop, hstop⟩ ⟨_, _⟩ ⟨rfl, after, hafter, rfl⟩
    have htree : (Node.symbol text).tree? trees = some (.symbol text) := rfl
    obtain ⟨hpushed, hlast⟩ := (Grown.refl htrees).push htree
    exact ⟨⟨after, hafter, rfl, fun hne => absurd rfl hne⟩, _, hlast, hpushed⟩

/-- **Alternatives are read alike**, by induction on the length of the rest. -/
theorem alike_alternatives (source : List Char) (size : ℕ) : Alike source .alternatives size := by
  induction size using Nat.strongRecOn with
  | ind size ih =>
    exact (arranged_alternatives _).alike ((arranged_sequence _).alike (alike_factor ih))

end Worksheet.Ebnf
