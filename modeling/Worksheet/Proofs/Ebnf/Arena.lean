import Worksheet.Proofs.Ebnf.Source
import Worksheet.Proofs.Text.Cuts

/-!
# Grammars in an arena

A grammar can be kept in one list of nodes, its arena, in which an expression is
named by its place, its id. Ids are handed out while a source is read: a node is
put at the end of the arena when all of it has been read, so after its parts.
Names are resolved once every rule is there.

The reader keeps a byte offset into the source. It looks at single bytes, and
cuts the source where it looks for a comment or a quotation mark and where it
takes a name or a literal out; such a cut may break (`Halt.broken`).

`Node.tree?` and `trees?` turn an arena back into expressions: a node is the
tree of its parts, which have to stand before it.
-/

namespace Worksheet.Ebnf

open Text

variable {S S' T : Type}

/-! ## Arenas -/

/-- An expression whose parts are named by their ids. It is an `Expr` with the
recursion taken out. -/
inductive Node (S : Type) where
  | literal (text : List Char)
  | symbol (name : S)
  | sequence (parts : List ℕ)
  | choice (parts : List ℕ)
  | optional (part : ℕ)
  | repetition (part : ℕ)
  deriving DecidableEq

def Node.children : Node S → List ℕ
  | .literal _ | .symbol _ => []
  | .sequence parts | .choice parts => parts
  | .optional part | .repetition part => [part]

/-- A rule, and the id of what it stands for. -/
structure ArenaRule where
  name : List Char
  body : ℕ
  deriving DecidableEq

/-- A grammar in an arena. -/
structure Arena (T : Type) where
  /-- The rules in source order. -/
  rules : List ArenaRule
  /-- The nodes in the order of their ids. -/
  nodes : List (Node (Symbol T))
  /-- The place of each rule by its name. -/
  names : List (List Char × ℕ)

/-- The place of the rule of a name, if there is one. -/
def Arena.rule? (arena : Arena T) (name : List Char) : Option ℕ :=
  arena.names.lookup name

/-! ## Reading

The readers below keep an offset and the nodes so far. What they give back
carries the bounds on itself: `Taken` and `Found` end behind where they start,
and no more nodes are added than bytes are passed over (`Found.room`), so that
neither the recursion nor the sizes need an argument of their own. -/

/-- Why a reader halts. -/
inductive Halt where
  /-- The source is no grammar. -/
  | fault (error : GrammarError)
  /-- The source was cut inside a character. -/
  | broken (cut : BrokenCut)
  deriving DecidableEq

def Halt.at (offset : ℕ) (fault : SyntaxFault) : Halt :=
  .fault (.badSyntax offset fault)

/-- A byte that is there is before the end. The readers below end because of
it. -/
theorem lt_of_byteAt? {source : List Char} {offset : ℕ} {c : Char}
    (h : byteAt? source offset = some c) : offset < byteLength source := by
  obtain ⟨byte, hbyte, -⟩ := Option.map_eq_some_iff.1 h
  rw [← length_bytes]
  exact (List.getElem?_eq_some_iff.1 hbyte).1

/-- Where blanks and comments end. The source is cut at each place where a
comment could begin, and again inside of one to find its end. -/
def blankEnd (source : List Char) (offset : ℕ) : Except Halt ℕ :=
  if _hblank : (byteAt? source offset).any isAsciiBlank then blankEnd source (offset + 1)
  else
    match _hcut : cutFrom source offset with
    | .error cut => .error (.broken cut)
    | .ok [] => .ok offset
    | .ok (c :: rest) =>
      if (drop? ['(', '*'] (c :: rest)).isSome then
        match cutFrom source (offset + 2) with
        | .error cut => .error (.broken cut)
        | .ok inside =>
          match find? ['*', ')'] inside with
          | some length => blankEnd source (offset + 2 + length + 2)
          | none => .error (.at offset .openComment)
      else .ok offset
termination_by byteLength source - offset
decreasing_by
  · obtain ⟨c, hc, -⟩ := (Option.any_eq_true _ _).1 _hblank
    have hlt := lt_of_byteAt? hc
    omega
  · have hlt := (StandsAt.of_cutFrom _hcut).lt_byteLength
    omega

theorem le_of_blankEnd {source : List Char} {offset start : ℕ}
    (h : blankEnd source offset = .ok start) : offset ≤ start := by
  fun_induction blankEnd source offset with
  | case1 offset hblank ih => exact Nat.le_of_succ_le (ih h)
  | case2 => cases h
  | case3 => exact (Except.ok.inj h).le
  | case4 => cases h
  | case5 offset _ c rest _ _ inside _ length _ ih => exact Nat.le_trans (by omega) (ih h)
  | case6 => cases h
  | case7 => exact (Except.ok.inj h).le

def skipBlank (source : List Char) (offset : ℕ) : Except Halt { start : ℕ // offset ≤ start } :=
  match h : blankEnd source offset with
  | .error halt => .error halt
  | .ok start => .ok ⟨start, le_of_blankEnd h⟩

def expectAt (source : List Char) (mark : Char) (offset : ℕ) :
    Except Halt { stop : ℕ // offset < stop } := do
  let ⟨start, hstart⟩ ← skipBlank source offset
  if byteAt? source start = some mark then return ⟨start + 1, by omega⟩
  else throw (.at start (.expected mark))

/-- A text that was taken out of the source from an offset on, and the offset
behind it. Something was taken, so that a reader gets on by it. -/
structure Taken (offset : ℕ) where
  text : List Char
  stop : ℕ
  lt : offset < stop

def nameAt (source : List Char) (offset : ℕ) : Except Halt (Taken offset) := do
  let ⟨start, hstart⟩ ← skipBlank source offset
  if (byteAt? source start).any isNameStart then
    let more := (((bytes source).drop (start + 1)).takeWhile (onBytes isNamePart)).length
    let text ← (cutRange source start (start + 1 + more)).mapError .broken
    return ⟨text, start + 1 + more, by omega⟩
  else throw (.at start .expectedName)

/-- What is in the quotation marks that open at an offset. There has to be
something in them. -/
def literalAt (source : List Char) (start : ℕ) : Except Halt (Taken start) := do
  let inside ← (cutFrom source (start + 1)).mapError .broken
  match find? ['"'] inside with
  | none => throw (.at start .openLiteral)
  | some 0 => throw (.at start .emptyLiteral)
  | some length =>
    let text ← (cutRange source (start + 1) (start + 1 + length)).mapError .broken
    return ⟨text, start + 1 + length + 1, by omega⟩

/-- An expression that was read from an offset on into an arena with some nodes:
its id, the nodes there are then, and the offset behind it. No more nodes come
of it than it has bytes. -/
structure Found (offset count : ℕ) where
  id : ℕ
  nodes : List (Node (List Char))
  stop : ℕ
  lt : offset < stop
  room : nodes.length + offset ≤ count + stop

/-- Further expressions that were read from an offset on, each behind a mark.
There may be none, and then nothing was read but blanks. -/
structure FoundMore (offset count : ℕ) where
  ids : List ℕ
  nodes : List (Node (List Char))
  stop : ℕ
  le : offset ≤ stop
  room : nodes.length + ids.length + offset ≤ count + stop

def Found.push {offset count : ℕ} (nodes : List (Node (List Char))) (node : Node (List Char))
    (stop : ℕ) (lt : offset < stop) (room : nodes.length + 1 + offset ≤ count + stop) :
    Found offset count where
  id := nodes.length
  nodes := nodes ++ [node]
  stop := stop
  lt := lt
  room := by rwa [List.length_append]

/-- The only expression as it is, or the node of all of them, which `wrap`
makes. -/
def gather {offset count : ℕ} (wrap : List ℕ → Node (List Char)) (first : Found offset count)
    (more : FoundMore first.stop first.nodes.length) : Found offset count :=
  have hlt := first.lt
  have hroom := first.room
  have hle := more.le
  have hmore := more.room
  if h : more.ids = [] then ⟨first.id, more.nodes, more.stop, by omega, by omega⟩
  else
    have hsome := List.length_pos_iff.2 h
    .push more.nodes (wrap (first.id :: more.ids)) more.stop (by omega) (by omega)

/-- What a bracket makes of what it encloses, if that is a node of its own, and
how it is closed. Parentheses make none. -/
def bracket? (opening : Char) : Option (Option (ℕ → Node (List Char)) × Char) :=
  if opening = '[' then some (some .optional, ']')
  else if opening = '{' then some (some .repetition, '\x7d')
  else if opening = '(' then some (none, ')')
  else none

/-- What was read in a bracket that opens at an offset, once it is closed. -/
def closeAt {offset count : ℕ} (source : List Char) (wrap : Option (ℕ → Node (List Char)))
    (mark : Char) (start : ℕ) (hstart : offset ≤ start) (inner : Found (start + 1) count) :
    Except Halt (Found offset count) :=
  (expectAt source mark inner.stop).map fun ⟨stop, hstop⟩ =>
    have hlt := inner.lt
    have hroom := inner.room
    match wrap with
    | some wrap => .push inner.nodes (wrap inner.id) stop (by omega) (by omega)
    | none => ⟨inner.id, inner.nodes, stop, by omega, by omega⟩

/-- What stands above what. An expression of a level begins with one of the
level below at the same offset, so the offset alone does not tell that reading
ends. -/
def Level.rank : Level → ℕ
  | .factor => 0
  | .sequence => 1
  | .alternatives => 2

/-- What the expressions of a level are made of: those of the level below, the
mark between them, and the node of several. Factors are made of no such parts. -/
def Level.parts? : Level → Option (Level × Char × (List ℕ → Node (List Char)))
  | .factor => none
  | .sequence => some (.factor, ',', .sequence)
  | .alternatives => some (.sequence, '|', .choice)

theorem Level.rank_lt {level lower : Level} {mark : Char} {wrap : List ℕ → Node (List Char)}
    (h : level.parts? = some (lower, mark, wrap)) : lower.rank < level.rank := by
  cases level <;> cases h <;> decide

mutual

/-- **An expression of a level, read from an offset on into an arena.** The two
levels of several parts are read alike (`Level.parts?`); a factor is a literal,
a bracket or a name. -/
def readAt (source : List Char) (level : Level) (offset : ℕ) (nodes : List (Node (List Char))) :
    Except Halt (Found offset nodes.length) :=
  match _hparts : level.parts? with
  | some (lower, mark, wrap) => do
    let first ← readAt source lower offset nodes
    (readMoreAt source lower mark first.stop first.nodes).map (gather wrap first)
  | none => do
    let ⟨start, hstart⟩ ← skipBlank source offset
    if byteAt? source start = some '"' then
      let ⟨text, stop, hstop⟩ ← literalAt source start
      return .push nodes (.literal text) stop (by omega) (by omega)
    else
      match _hbracket : (byteAt? source start).bind bracket? with
      | some (wrap, mark) =>
        let inner ← readAt source .alternatives (start + 1) nodes
        closeAt source wrap mark start hstart inner
      | none =>
        let ⟨text, stop, hstop⟩ ← nameAt source start
        return .push nodes (.symbol text) stop (by omega) (by omega)
termination_by (byteLength source - offset) * 8 + 2 * level.rank
decreasing_by
  · have hrank := Level.rank_lt _hparts
    omega
  · have hrank := Level.rank_lt _hparts
    have hlt := first.lt
    omega
  · obtain ⟨c, hc, -⟩ := Option.bind_eq_some_iff.1 _hbracket
    have hlt := lt_of_byteAt? hc
    have hrank : Level.alternatives.rank = 2 := rfl
    omega

/-- Further expressions of a level, each behind a mark, up to something else. -/
def readMoreAt (source : List Char) (level : Level) (mark : Char) (offset : ℕ)
    (nodes : List (Node (List Char))) : Except Halt (FoundMore offset nodes.length) := do
  let ⟨start, hstart⟩ ← skipBlank source offset
  if _hmark : byteAt? source start = some mark then
    let ⟨id, nodes', stop, hstop, hroom⟩ ← readAt source level (start + 1) nodes
    let ⟨ids, nodes'', final, hfinal, hroom'⟩ ← readMoreAt source level mark stop nodes'
    return ⟨id :: ids, nodes'', final, by omega, by rw [List.length_cons]; omega⟩
  else return ⟨[], nodes, start, hstart, by rw [List.length_nil]; omega⟩
termination_by (byteLength source - offset) * 8 + 2 * level.rank + 1
decreasing_by
  · have hlt := lt_of_byteAt? _hmark
    omega
  · have hlt := lt_of_byteAt? _hmark
    omega

end

def ruleAt (source : List Char) (offset : ℕ) (nodes : List (Node (List Char))) :
    Except Halt (List Char × Found offset nodes.length) := do
  let ⟨name, named, hnamed⟩ ← nameAt source offset
  let ⟨start, hstart⟩ ← expectAt source '=' named
  let ⟨body, nodes', ended, hended, hroom⟩ ← readAt source .alternatives start nodes
  let ⟨stop, hstop⟩ ← expectAt source ';' ended
  return (name, ⟨body, nodes', stop, by omega, by omega⟩)

/-- All rules from an offset on, with their names and the nodes they are made
of. A name is refused as soon as it is defined again. -/
def rulesAt (source : List Char) (rules : List ArenaRule) (names : List (List Char × ℕ))
    (nodes : List (Node (List Char))) (offset : ℕ) :
    Except Halt (List ArenaRule × List (List Char × ℕ) × List (Node (List Char))) :=
  if _h : isAtEnd source offset then return (rules, names, nodes)
  else do
    let (name, ⟨body, nodes', stop, _hstop, _⟩) ← ruleAt source offset nodes
    if (names.lookup name).isSome then throw (.fault (.duplicateRule name))
    else
      let ⟨next, _hnext⟩ ← skipBlank source stop
      rulesAt source (rules ++ [⟨name, body⟩]) (names ++ [(name, rules.length)]) nodes' next
termination_by byteLength source - offset
decreasing_by
  rw [isAtEnd, decide_eq_true_iff] at _h
  omega

/-! ## Resolving names

A name may be used before its rule is defined, so names are looked up only when
all rules are there. A node has one name or none, and resolving goes through
the arena in the order of the ids. -/

def Node.resolve (look : S → Except GrammarError S') : Node S → Except GrammarError (Node S')
  | .literal text => .ok (.literal text)
  | .symbol name => (look name).map .symbol
  | .sequence parts => .ok (.sequence parts)
  | .choice parts => .ok (.choice parts)
  | .optional part => .ok (.optional part)
  | .repetition part => .ok (.repetition part)

/-- What a name stands for: the rule of that name, if there is one, and else a
terminal. -/
def lookUpIn (names : List (List Char × ℕ)) (terminal? : List Char → Option T)
    (name : List Char) : Except GrammarError (Symbol T) :=
  match names.lookup name with
  | some index => .ok (.rule index)
  | none =>
    match terminal? name with
    | some terminal => .ok (.terminal terminal)
    | none => .error (.unknownName name)

/-- **The grammar a source spells, in an arena.** Names are resolved in the
order of the nodes, after all rules have been read. -/
def Arena.ofSource? (terminal? : List Char → Option T) (source : List Char) :
    Except Halt (Arena T) := do
  let ⟨start, _⟩ ← skipBlank source 0
  let (rules, names, nodes) ← rulesAt source [] [] [] start
  let nodes ← (nodes.mapM (Node.resolve (lookUpIn names terminal?))).mapError .fault
  return { rules, nodes, names }

/-! ## Expressions of an arena

From the front of the arena to its end, each node becomes an expression by
putting the expressions of its parts in their places. This is possible only
when the parts come first, so `trees?` answers nothing for an arena in which a
node points forward or nowhere. -/

/-- The expression of a node whose parts are among some expressions, which are
those of the nodes before it. -/
def Node.tree? (trees : List (Expr S)) : Node S → Option (Expr S)
  | .literal text => some (.literal text)
  | .symbol name => some (.symbol name)
  | .sequence parts => (parts.mapM (trees[·]?)).map .sequence
  | .choice parts => (parts.mapM (trees[·]?)).map .choice
  | .optional part => trees[part]?.map .optional
  | .repetition part => trees[part]?.map .repetition

/-- The expressions of nodes, if each stands behind its parts. There is none for
a node with a part that comes later or is not there. -/
def trees? (nodes : List (Node S)) : Option (List (Expr S)) :=
  nodes.foldlM (fun trees node => (node.tree? trees).map fun tree => trees ++ [tree]) []

def rulesOf? (rules : List ArenaRule) (nodes : List (Node S)) : Option (List (Rule S)) :=
  (trees? nodes).bind fun trees =>
    rules.mapM fun rule => trees[rule.body]?.map (Rule.mk rule.name)

/-- The grammar of an arena, if its nodes have expressions and its rules
bodies. -/
def Arena.grammar? (arena : Arena T) : Option (Grammar T) :=
  (rulesOf? arena.rules arena.nodes).map Grammar.mk

end Worksheet.Ebnf
