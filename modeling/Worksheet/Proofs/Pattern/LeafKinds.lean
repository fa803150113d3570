import Mathlib.Algebra.Group.Nat.Defs
import Worksheet.Proofs.Pattern.Boundary
import Worksheet.Proofs.Pattern.Components

/-!
# The leaves that patterns have

Every leaf of a tree that was read is what some terminal read
(`Terminal.Reads`), and which terminals come into question is seen from the rule
(`Parses.reads`). So a section for dates has no hours, a section for times no
days, and a section for numbers neither, and no more has a pattern that was read
and accepted (`lacks_of_wholePattern?`). The terminals of a rule are computed
(`readers`) and kept in a table for the rules (`standardReaders`), so that what
a kind of pattern bars (`Kind.barred`) is compared with it by `decide`.

In a tree that was made in another way nothing sees to it. The check looks for
fillers, for places for text and, where text is shown, for digits, and passes
over every other leaf: in an accepted tree any leaves but separators may be
exchanged for such as no section of the kind can have (`leaves_of_ofToken?`).
The last part of the module follows the check through such an exchange
(`Exchanges`), function by function: the nodes, their texts and the sections
stay what they were, and none of the leaves that come in is one that is looked
for (`allowsLeaf_of_mem_barred`).
-/

namespace Worksheet.Pattern

open Ebnf Token

variable {grammar : Grammar Terminal} {table : ℕ → List Terminal} {e : Expr (Symbol Terminal)}
  {input rest text : List Char} {leaf : LeafKind} {token tree : Token} {tokens : List Token}
  {kind : Kind} {part : Part}

/-! ## What terminals read

Terminals and the leaves that they read are in a fixed relation,
`LeafKind.terminal`, and the values in a leaf are within the bounds of its
scanner. -/

/-- The terminal that reads leaves of a kind. A leaf is of one terminal only,
whatever it holds. -/
def LeafKind.terminal : LeafKind → Terminal
  | .day _ => .day
  | .month _ => .month
  | .monthOrMinute _ => .monthOrMinute
  | .year _ => .year
  | .hour _ => .hour
  | .second _ => .second
  | .amPm => .amPm
  | .digit => .digit
  | .digitZero => .digitZero
  | .digitSpace => .digitSpace
  | .decimalPoint => .decimalPoint
  | .groupSeparator => .groupSeparator
  | .percent => .percent
  | .currency => .currency
  | .exponent => .exponent
  | .textPlaceholder => .textPlaceholder
  | .quotedText _ => .quotedText
  | .escape _ => .escape
  | .star _ => .star
  | .underscore _ => .underscore
  | .whitespace => .whitespace
  | .textLiteral _ => .textLiteral
  | .fractionSymbol => .fractionSymbol
  | .fractionDenominator _ => .fractionDenominator
  | .bracketOpen => .bracketOpen
  | .bracketClose => .bracketClose
  | .colourName _ => .colourName
  | .colourNumber _ => .colourNumber
  | .conditionSymbol _ => .conditionSymbol
  | .conditionNumber _ => .conditionNumber
  | .separator => .separator
  | .general => .generalSymbol

namespace Terminal

theorem signedNumber_eq_some (h : signedNumber input = some (leaf, rest)) :
    ∃ value, leaf = .conditionNumber value := by
  simp only [signedNumber] at h
  obtain ⟨-, h⟩ := Option.ite_none_left_eq_some.1 h
  exact ⟨_, (Prod.mk.inj (Option.some.inj h)).1.symm⟩

/-- **A denominator is not zero**, since it does not start with one, and has at
most 32 bits, as it is refused otherwise. -/
theorem denominator_eq_some (h : denominator input = some (leaf, rest)) :
    ∃ value, leaf = .fractionDenominator value ∧ 1 ≤ value ∧ value < 2 ^ 32 := by
  simp only [denominator] at h
  obtain ⟨hfits, h⟩ := Option.ite_none_left_eq_some.1 h
  simp only [Bool.or_eq_true, not_or, decide_eq_true_eq, not_le, beq_iff_eq] at hfits
  obtain ⟨⟨hsome, hzero⟩, hlt⟩ := hfits
  refine ⟨_, (Prod.mk.inj (Option.some.inj h)).1.symm, Nat.pos_of_ne_zero fun hvalue => ?_, hlt⟩
  -- a number that is zero is written with zeros only
  have hdigits : ∀ c ∈ (Text.takeRun Char.isDigit input).1, c.isDigit = true :=
    fun c => List.mem_takeWhile_imp
  have hzeros := Text.eq_replicate_of_digitsValue hdigits hvalue
  generalize (Text.takeRun Char.isDigit input).1 = digits at hsome hzero hzeros
  cases digits with
  | nil => exact hsome rfl
  | cons c digits => exact hzero (congrArg some (List.cons.inj hzeros).1)

theorem paletteColour_eq_some (h : paletteColour input = some (leaf, rest)) :
    ∃ number, leaf = .colourNumber number := by
  unfold paletteColour at h
  split at h
  · cases h
  · simp only at h
    split at h
    · cases h
    · exact ⟨_, (Prod.mk.inj (Option.some.inj h)).1.symm⟩

/-- **A terminal reads its own leaves**, by cases on the terminal. -/
theorem terminal_of_scan? {terminal : Terminal} (h : terminal.scan? input = some (leaf, rest)) :
    leaf.terminal = terminal := by
  cases terminal with
  | bracketOpen | bracketClose | digit | digitZero | digitSpace | decimalPoint | groupSeparator
  | percent | currency | textPlaceholder | fractionSymbol | separator =>
    obtain rfl := single_eq_some h
    rfl
  | whitespace =>
    obtain ⟨rfl, -⟩ := spaces_of_scan? h
    rfl
  | day | month | monthOrMinute | year | hour | second =>
    obtain ⟨run, rfl, -⟩ := repeated_eq_some h
    rfl
  | escape | star | underscore =>
    obtain ⟨c, rfl⟩ := marked_eq_some h
    rfl
  | textLiteral =>
    obtain ⟨literal, rfl⟩ := textLiteral_eq_some h
    rfl
  | quotedText =>
    obtain ⟨inside, rfl⟩ := quotation_eq_some h
    rfl
  | generalSymbol | amPm | conditionSymbol =>
    obtain ⟨_, -, heq⟩ := Option.map_eq_some_iff.1 h
    obtain ⟨rfl, -⟩ := Prod.mk.inj heq
    rfl
  | exponent =>
    obtain rfl := exponentMark_eq_some h
    rfl
  | fractionDenominator =>
    obtain ⟨value, rfl, -⟩ := denominator_eq_some h
    rfl
  | conditionNumber =>
    obtain ⟨value, rfl⟩ := signedNumber_eq_some h
    rfl
  | colourNumber =>
    obtain ⟨number, rfl⟩ := paletteColour_eq_some h
    rfl
  | colourName =>
    obtain ⟨_, -, heq⟩ := List.exists_of_findSome?_eq_some h
    obtain ⟨_, -, heq⟩ := Option.map_eq_some_iff.1 heq
    obtain ⟨rfl, -⟩ := Prod.mk.inj heq
    rfl

/-- **A terminal reads a leaf**, or the leaf is a literal of the grammar, which
is made without scanning. -/
def Reads (terminal : Terminal) (leaf : LeafKind) : Prop :=
  (∃ input rest, terminal.scan? input = some (leaf, rest)) ∨
    terminal = .textLiteral ∧ ∃ literal, leaf = .textLiteral literal

theorem Reads.terminal_eq {terminal : Terminal} (h : terminal.Reads leaf) :
    leaf.terminal = terminal := by
  rcases h with ⟨input, rest, hscan⟩ | ⟨rfl, literal, rfl⟩
  · exact terminal_of_scan? hscan
  · rfl

theorem Reads.denominator {terminal : Terminal} {fixed : ℕ}
    (h : terminal.Reads (.fractionDenominator fixed)) : 1 ≤ fixed ∧ fixed < 2 ^ 32 := by
  rcases h with ⟨input, rest, hscan⟩ | ⟨-, literal, hleaf⟩
  · obtain rfl : Terminal.fractionDenominator = terminal := terminal_of_scan? hscan
    obtain ⟨value, hleaf, hbounds⟩ := denominator_eq_some hscan
    exact LeafKind.fractionDenominator.inj hleaf ▸ hbounds
  · cases hleaf

end Terminal

/-! ## What expressions read

As for the fronts of expressions, a table is computed and then checked against
the rules. It may list too much, which only makes `Lacks` harder to show. -/

mutual

/-- The terminals that read leaves for an expression, from those that do for the
rules. -/
def readers (table : ℕ → List Terminal) : Expr (Symbol Terminal) → List Terminal
  | .literal _ => [.textLiteral]
  | .symbol (.terminal terminal) => [terminal]
  | .symbol (.rule index) => table index
  | .sequence parts | .choice parts => readersAll table parts
  | .optional part | .repetition part => readers table part

def readersAll (table : ℕ → List Terminal) : List (Expr (Symbol Terminal)) → List Terminal
  | [] => []
  | part :: parts => readers table part ++ readersAll table parts

end

theorem readers_subset_of_mem {parts : List (Expr (Symbol Terminal))} (h : e ∈ parts) :
    readers table e ⊆ readersAll table parts := by
  induction parts with
  | nil => cases h
  | cons part parts ih =>
    rw [readersAll]
    rcases List.mem_cons.1 h with rfl | h
    · exact List.subset_append_left _ _
    · exact List.Subset.trans (ih h) (List.subset_append_right _ _)

/-- **A table tells what the rules of a grammar read.** As with `Fits`, the
table may say more. -/
def Tells (grammar : Grammar Terminal) (table : ℕ → List Terminal) : Prop :=
  ∀ entry ∈ grammar.rules.zipIdx, readers table entry.1.body ⊆ table entry.2

/-- The kinds of the leaves below a node. -/
def Token.leafKinds (token : Token) : List LeafKind :=
  token.leaves.filterMap leafKind?

def leafKindsAll (tokens : List Token) : List LeafKind :=
  (leavesSkippingAll (fun _ => false) tokens).filterMap leafKind?

theorem leafKindsAll_cons (token : Token) (tokens : List Token) :
    leafKindsAll (token :: tokens) = token.leafKinds ++ leafKindsAll tokens :=
  List.filterMap_append

theorem leafKindsAll_append (tokens more : List Token) :
    leafKindsAll (tokens ++ more) = leafKindsAll tokens ++ leafKindsAll more := by
  induction tokens with
  | nil => rfl
  | cons token tokens ih =>
    rw [List.cons_append, leafKindsAll_cons, leafKindsAll_cons, ih, List.append_assoc]

theorem leafKindsAll_singleton (token : Token) : leafKindsAll [token] = token.leafKinds := by
  rw [leafKindsAll_cons]
  exact List.append_nil _

theorem mem_leafKindsAll :
    leaf ∈ leafKindsAll tokens ↔ ∃ token ∈ tokens, leaf ∈ token.leafKinds := by
  induction tokens with
  | nil => exact iff_of_false nofun nofun
  | cons token tokens ih =>
    rw [leafKindsAll_cons, List.mem_append, ih, List.exists_mem_cons_iff]

theorem leafKinds_of_build? {shape : Shape} (h : shape.build? tokens = some token) :
    token.leafKinds = leafKindsAll tokens := by
  obtain ⟨kind, hparent⟩ := Shape.exists_of_build? h
  obtain ⟨-, rfl⟩ := parent?_eq_ok_iff.1 hparent
  rfl

mutual

/-- Leaving out some inner nodes only loses leaves. -/
theorem leavesSkipping_subset (skip : ParentKind → Bool) :
    ∀ token : Token, token.leavesSkipping skip ⊆ token.leaves
  | .leaf kind text => by
    rw [leaves, leavesSkipping, leavesSkipping]
    exact List.Subset.refl _
  | .parent kind children text => by
    rw [leaves, leavesSkipping, leavesSkipping, if_neg Bool.false_ne_true]
    split
    · exact List.nil_subset _
    · exact leavesSkippingAll_subset skip children

theorem leavesSkippingAll_subset (skip : ParentKind → Bool) :
    ∀ tokens : List Token, leavesSkippingAll skip tokens ⊆ leavesSkippingAll (fun _ => false) tokens
  | [] => List.Subset.refl _
  | token :: tokens => by
    rw [leavesSkippingAll, leavesSkippingAll]
    exact List.append_subset.2
      ⟨List.Subset.trans (leavesSkipping_subset skip token) (List.subset_append_left _ _),
        List.Subset.trans (leavesSkippingAll_subset skip tokens) (List.subset_append_right _ _)⟩

end

/-- **The leaves outside blocks** are leaves of the section. -/
theorem mem_leafKinds_of_contentLeaves {found : Token} (h : found ∈ contentLeaves token)
    (hleaf : found.leafKind? = some leaf) : leaf ∈ token.leafKinds := by
  obtain ⟨child, hchild, hfound⟩ := List.mem_flatMap.1 h
  cases token with
  | leaf => cases hchild
  | parent kind children text =>
    have hkind : leaf ∈ child.leafKinds :=
      List.mem_filterMap.2 ⟨found, leavesSkipping_subset _ child hfound, hleaf⟩
    show leaf ∈ leafKindsAll children
    exact mem_leafKindsAll.2 ⟨child, hchild, hkind⟩

/-- **What is parsed is read by the terminals** of the expression, by induction
on the derivation. -/
theorem Parses.reads (htable : Tells grammar table) (h : Parses grammar e input tokens rest) :
    ∀ leaf ∈ leafKindsAll tokens, ∃ terminal ∈ readers table e, terminal.Reads leaf := by
  induction h with
  | literal =>
    rw [leafKindsAll_singleton, readers]
    exact List.forall_mem_singleton.2
      ⟨_, List.mem_singleton_self _, .inr ⟨rfl, _, rfl⟩⟩
  | terminal hscan =>
    rw [leafKindsAll_singleton, readers]
    exact List.forall_mem_singleton.2
      ⟨_, List.mem_singleton_self _, .inl ⟨_, _, hscan⟩⟩
  | splice hrule hshape hbody ih =>
    rw [readers]
    intro leaf hleaf
    -- the readers of a rule's body are in the table, by `Tells`
    obtain ⟨terminal, hmem, hreads⟩ := ih leaf hleaf
    exact ⟨terminal, htable (_, _) (List.mk_mem_zipIdx_iff_getElem?.2 hrule) hmem, hreads⟩
  | node hrule hshape hbuild hbody ih =>
    rw [leafKindsAll_singleton, leafKinds_of_build? hbuild, readers]
    intro leaf hleaf
    obtain ⟨terminal, hmem, hreads⟩ := ih leaf hleaf
    exact ⟨terminal, htable (_, _) (List.mk_mem_zipIdx_iff_getElem?.2 hrule) hmem, hreads⟩
  | nil | absent | stop => exact nofun
  | cons hpart hparts ihpart ihparts =>
    rw [readers] at ihparts ⊢
    rw [leafKindsAll_append, readersAll]
    exact List.forall_mem_append.2
      ⟨fun leaf hleaf => (ihpart leaf hleaf).imp fun _ => And.imp_left (List.mem_append_left _),
        fun leaf hleaf => (ihparts leaf hleaf).imp fun _ => And.imp_left (List.mem_append_right _)⟩
  | choice hmem hpart ih =>
    rw [readers]
    exact fun leaf hleaf =>
      (ih leaf hleaf).imp fun _ => And.imp_left (readers_subset_of_mem hmem ·)
  | present hpart ih =>
    rw [readers]
    exact ih
  | round hpart hmore ihpart ihmore =>
    rw [leafKindsAll_append, readers]
    rw [readers] at ihmore
    exact List.forall_mem_append.2 ⟨ihpart, ihmore⟩

/-! ## The sections of patterns

What a purpose bars is read off the table for the rules of its sections, and
`not_mem_barred` is decided. A tree that was read has only nodes of such rules
at its top, apart from separators. -/

def readersOf (grammar : Grammar Terminal) : ℕ → ℕ → List Terminal
  | 0, _ => []
  | depth + 1, index =>
    match grammar.rules[index]? with
    | none => []
    | some rule => readers (readersOf grammar depth) rule.body

/-- What the rules of patterns read. Rules nest four deep, and
`tells_standardReaders` checks that this is enough. -/
def standardReaders : ℕ → List Terminal :=
  readersOf standard 4

theorem tells_standardReaders : Tells standard standardReaders := by
  unfold Tells
  decide

/-- **The leaves of a part** are read by the terminals of its rule. -/
theorem reads_of_readPart (h : (readPart standard part text).1 = some (token, rest)) :
    ∀ leaf ∈ token.leafKinds, ∃ terminal ∈ standardReaders part.index, terminal.Reads leaf := by
  have hparses := parses_of_evaluateRule standard _ _ _ _ _ (readPart_standard_iff.1 h)
  have hreads := hparses.reads tells_standardReaders
  rwa [leafKindsAll_singleton, readers] at hreads

/-- The kind of section a part is. Colours, conditions and separators are parts,
but no sections. -/
def Part.sectionKind? : Part → Option ParentKind
  | .date => some .date
  | .dateTime => some .dateTime
  | .time => some .time
  | .number => some .number
  | .fraction => some .fraction
  | .text => some .text
  | .general => some .general
  | .colour | .condition | .separator => none

theorem parentKind?_of_build? {shape : ParentKind}
    (h : (Shape.node shape).build? tokens = some token) : token.parentKind? = some shape := by
  obtain ⟨-, rfl⟩ := parent?_eq_ok_iff.1 (eq_ok_of_toOption h)
  rfl

theorem allowsSection_eq_false {block : ParentKind} (h : block.isBlock = true) :
    kind.allowsSection block = false := by
  cases block with
  | colour | condition => cases kind <;> rfl
  | _ => cases h

theorem exists_build?_of_readPart (shape : Shape)
    (h : (readPart standard part text).1 = some (token, rest)) {rule : Rule (Symbol Terminal)}
    (hrule : standard.rules[part.index]? = some rule) (hshape : shapeOf? rule.name = some shape) :
    ∃ tokens, shape.build? tokens = some token := by
  obtain ⟨tokens, _, htoken, hbuild, -⟩ := Parses.exists_of_node hrule hshape
    (parses_of_evaluateRule standard _ _ _ _ _ (readPart_standard_iff.1 h))
  obtain rfl := List.singleton_inj.1 htoken
  exact ⟨tokens, hbuild⟩

/-- **A part that a pattern may have as a section** is a section of its kind:
the node is made by the rule of the part, and blocks are no sections of any
pattern. -/
theorem sectionKind?_of_readPart (h : (readPart standard part text).1 = some (token, rest))
    {sectionKind : ParentKind} (hsection : token.parentKind? = some sectionKind)
    (hallowed : kind.allowsSection sectionKind = true) : part.sectionKind? = some sectionKind := by
  -- colours and conditions are blocks inside a section, and no kind of pattern
  -- allows one as a section
  have hblock : ∀ block : ParentKind, block.isBlock = true → token.parentKind? ≠ some block := by
    intro block hblock hsame
    obtain rfl := Option.some.inj (hsection.symm.trans hsame)
    rw [allowsSection_eq_false hblock] at hallowed
    cases hallowed
  cases part with
  | separator =>
    cases parses_of_evaluateRule standard _ _ _ _ _ (readPart_standard_iff.1 h) with
    | node hrule hshape =>
      obtain rfl := Option.some.inj hrule
      cases hshape
    | splice hrule hshape hbody =>
      obtain rfl := Option.some.inj hrule
      cases hbody
      cases hsection
  | colour =>
    obtain ⟨_, hbuild⟩ := exists_build?_of_readPart (.node .colour) h rfl rfl
    exact absurd (parentKind?_of_build? hbuild) (hblock .colour rfl)
  | condition =>
    obtain ⟨_, hbuild⟩ := exists_build?_of_readPart .condition h rfl rfl
    unfold Shape.build? at hbuild
    dsimp only at hbuild
    split at hbuild
    · exact absurd (@parentKind?_of_build? _ _ (.condition _) hbuild) (hblock _ rfl)
    · cases hbuild
  | date | dateTime | time | number | fraction | text | general =>
    obtain ⟨_, hbuild⟩ := exists_build?_of_readPart (.node _) h rfl rfl
    exact (parentKind?_of_build? hbuild).symm.trans hsection

/-- **The leaves that a section for a purpose cannot have**, by the terminals
that read them. Dates with times may have the leaves of both, and texts those of
their literals. -/
def Kind.barred : Kind → List Terminal
  | .dateFormat | .dateParse =>
    [.hour, .second, .monthOrMinute, .amPm, .digit, .digitZero, .digitSpace, .generalSymbol]
  | .timeFormat | .timeParse => [.day, .month, .year]
  | .numberFormat | .numberParse =>
    [.day, .month, .monthOrMinute, .year, .hour, .second, .amPm]
  | .dateTimeFormat | .dateTimeParse | .textFormat => []

/-- **A tree lacks what the purpose bars.** -/
def Lacks (kind : Kind) (tree : Token) : Prop :=
  ∀ leaf ∈ tree.leafKinds, leaf.terminal ∉ kind.barred

/-- No rule of a section reads what is barred from it. It is decided for every
part and every purpose. -/
theorem not_mem_barred {sectionKind : ParentKind} (hpart : part.sectionKind? = some sectionKind)
    (hallowed : kind.allowsSection sectionKind = true) :
    ∀ terminal ∈ standardReaders part.index, terminal ∉ kind.barred := by
  have hall : ∀ part ∈ Part.all, ∀ kind ∈ Kind.all, ∀ sectionKind ∈ part.sectionKind?,
      kind.allowsSection sectionKind = true →
      ∀ terminal ∈ standardReaders part.index, terminal ∉ kind.barred := by
    decide
  exact hall part (by cases part <;> decide) kind (by cases kind <;> decide) sectionKind hpart
    hallowed

theorem leafKinds_of_isSeparator (h : token.isSeparator = true) :
    token.leafKinds = [.separator] := by
  cases token with
  | parent => cases h
  | leaf kind text => cases kind <;> first | rfl | cases h

/-- **Sections and separators in turn**: the nodes alternate with separators,
and each that is none was read as some part. -/
structure InTurn (tokens : List Token) : Prop where
  alternates : Alternates tokens
  read : ∀ token ∈ tokens, token.isSeparator = false →
    ∃ part text rest, (readPart standard part text).1 = some (token, rest)

/-- What is read of a section is at most one node, and a part. The hypothesis is
the body of the recursion of `readSections`, so that it can be applied where
that is unfolded. -/
theorem inTurn_of_section {alternatives : List Part} {reach reached : ℕ}
    (h : (if _ : endsSection input = true then (some ([], input), reach)
      else
        match readSection standard input alternatives reach with
        | (some (token, rest), reached) => (some ([token], rest), reached)
        | (none, reached) => (none, reached)) = (some (tokens, rest), reached)) :
    tokens = [] ∨ ∃ token, tokens = [token] ∧
      ∃ part, (readPart standard part input).1 = some (token, rest) := by
  split at h
  · exact .inl (Prod.mk.inj (Option.some.inj (Prod.mk.inj h).1)).1.symm
  · split at h
    · rename_i hsection
      obtain ⟨rfl, rfl⟩ := Prod.mk.inj (Option.some.inj (Prod.mk.inj h).1)
      obtain ⟨part, -, hpart⟩ := exists_of_readSection hsection
      exact .inr ⟨_, rfl, part, hpart⟩
    · cases (Prod.mk.inj h).1

/-- **Sections are read in turn with separators**, by induction on the recursion
of `readSections`. -/
theorem inTurn_of_readSections {alternatives : List Part} {reach : ℕ}
    (h : readSections standard alternatives text reach input = .ok tokens) : InTurn tokens := by
  fun_induction readSections standard alternatives text reach input generalizing tokens with
  | case1 | case3 | case4 | case6 => cases h
  | case2 =>
    rename_i hread
    obtain rfl := Except.ok.inj h
    rcases inTurn_of_section hread with rfl | ⟨token, rfl, part, hpart⟩
    · exact ⟨.nil, fun _ h => absurd h List.not_mem_nil⟩
    · exact ⟨.singleton token, List.forall_mem_singleton.2 fun _ => ⟨part, _, _, hpart⟩⟩
  | case5 =>
    rename_i hread index hindex outcome separators after hseparators _ ih
    obtain rfl := Option.some.inj (Part.separator.ruleIndex?_standard.symm.trans hindex)
    obtain ⟨mark, rfl⟩ := exists_of_parses (parses_of_evaluateRule _ _ _ _ _ _ hseparators)
    obtain ⟨other, hmem, hmark⟩ := exists_isSeparator_of_matched hseparators
    rw [List.mem_singleton.1 hmem] at hmark
    obtain ⟨more, hmore, rfl⟩ := exists_of_map_eq_ok h
    have hrest := ih hmore
    have hmarked : InTurn (mark :: more) :=
      ⟨(alternates_cons_of_separator hmark).2 hrest.alternates,
        List.forall_mem_cons.2 ⟨fun hcontent => absurd (hmark.symm.trans hcontent) (by decide),
          hrest.read⟩⟩
    rcases inTurn_of_section hread with rfl | ⟨token, rfl, part, hpart⟩
    · exact hmarked
    · exact ⟨List.isChain_cons_cons.2 ⟨.inr hmark, hmarked.alternates⟩,
        List.forall_mem_cons.2 ⟨fun _ => ⟨part, _, _, hpart⟩, hmarked.read⟩⟩

/-- **A pattern that was read lacks what its purpose bars**, by whatever parts
it was read: each of its sections was read as a part of a kind that the purpose
allows, and the rule of that part has no terminal for what is barred. -/
theorem lacks_of_wholePattern? {alternatives : List Part}
    (hread : wholePattern? standard alternatives text = .ok tree)
    (h : fault? kind tree = none) : Lacks kind tree := by
  unfold wholePattern? at hread
  split at hread
  · cases hread
  · split at hread
    · cases hread
    · rename_i children hchildren
      have hturn := inTurn_of_readSections hchildren
      obtain ⟨-, rfl⟩ := parent?_eq_ok_iff.1 hread
      obtain ⟨-, hsections⟩ := sectionsFault?_eq_none h
      -- every child but a separator is a section of its own
      have hall : (sectionsFrom none children).reduceOption = contents children :=
        (@reduceOption_sectionsFrom_eq_iff children none nofun).2 hturn.alternates
      intro leaf hleaf
      obtain ⟨child, hchild, hmem⟩ := mem_leafKindsAll.1 hleaf
      cases hcontent : child.isSeparator with
      | true =>
        rw [leafKinds_of_isSeparator hcontent, List.mem_singleton] at hmem
        rw [hmem]
        cases kind <;> decide
      | false =>
        obtain ⟨part, text, rest, hpart⟩ := hturn.read child hchild hcontent
        have hsection : some child ∈ sectionsFrom none children := by
          rw [← List.reduceOption_mem_iff, hall]
          exact List.mem_filter.2 ⟨hchild, by rw [hcontent]; rfl⟩
        obtain ⟨⟨sectionKind, hkind, hallowed⟩, -⟩ := passes_of_sectionsFault? hsections hsection
        obtain ⟨terminal, hterminal, hreads⟩ := reads_of_readPart hpart leaf hmem
        rw [hreads.terminal_eq]
        exact not_mem_barred (sectionKind?_of_readPart hpart hkind hallowed) hallowed
          terminal hterminal

/-! ## What the check passes over

The check looks at the kinds of sections, at fillers and at places for text,
and at numeric leaves in texts. Every other leaf can be exchanged without its
noticing, and `leaves_of_ofToken?` is the precise form of it. -/

mutual

/-- A tree with its leaves exchanged for others. Texts stay, so the tree is as
whole as before. -/
def Token.exchange (f : LeafKind → LeafKind) : Token → Token
  | .leaf kind text => .leaf (f kind) text
  | .parent kind children text => .parent kind (exchangeAll f children) text

def Token.exchangeAll (f : LeafKind → LeafKind) : List Token → List Token
  | [] => []
  | token :: tokens => exchange f token :: exchangeAll f tokens

end

/-- **An exchange for what the purpose bars**: separators stay, and any other
leaf may become one that no section for the purpose can have. -/
def Exchanges (kind : Kind) (f : LeafKind → LeafKind) : Prop :=
  ∀ leaf, f leaf = leaf ∨ leaf ≠ .separator ∧ (f leaf).terminal ∈ kind.barred

variable {f : LeafKind → LeafKind}

theorem parentKind?_exchange (f : LeafKind → LeafKind) (token : Token) :
    (token.exchange f).parentKind? = token.parentKind? := by
  cases token <;> (rw [exchange]; rfl)

theorem children_exchange (f : LeafKind → LeafKind) (token : Token) :
    (token.exchange f).children = exchangeAll f token.children := by
  cases token with
  | leaf =>
    rw [exchange, Token.children, Token.children, exchangeAll]
  | parent =>
    rw [exchange]
    rfl

theorem text_exchange (f : LeafKind → LeafKind) (token : Token) :
    (token.exchange f).text = token.text := by
  cases token <;> (rw [exchange]; rfl)

theorem exchangeAll_eq_map (f : LeafKind → LeafKind) (tokens : List Token) :
    exchangeAll f tokens = tokens.map (exchange f) := by
  induction tokens with
  | nil => rw [exchangeAll, List.map_nil]
  | cons token tokens ih => rw [exchangeAll, List.map_cons, ih]

/-- **A whole tree stays whole**, since no text changes. -/
theorem Token.Whole.exchange (f : LeafKind → LeafKind) (h : tree.Whole) :
    (tree.exchange f).Whole := by
  induction h with
  | leaf htext =>
    rw [Token.exchange]
    exact .leaf htext
  | @parent kind children hchildren htext ih =>
    have hsame : joinedText (exchangeAll f children) = joinedText children := by
      rw [exchangeAll_eq_map, joinedText, joinedText, List.flatMap_map]
      exact List.flatMap_congr fun child _ => text_exchange f child
    rw [Token.exchange, ← hsame]
    refine .parent ?_ (hsame ▸ htext)
    rw [exchangeAll_eq_map]
    exact List.forall_mem_map.2 ih

mutual

/-- The leaves are exchanged in their places, and no others come in. -/
theorem leavesSkipping_exchange (f : LeafKind → LeafKind) (skip : ParentKind → Bool) :
    ∀ token : Token, (token.exchange f).leavesSkipping skip
      = (token.leavesSkipping skip).map (exchange f)
  | .leaf kind text => by
    rw [exchange, leavesSkipping, leavesSkipping, List.map_singleton, exchange]
  | .parent kind children text => by
    rw [exchange, leavesSkipping, leavesSkipping]
    split
    · rfl
    · exact leavesSkippingAll_exchange f skip children

theorem leavesSkippingAll_exchange (f : LeafKind → LeafKind) (skip : ParentKind → Bool) :
    ∀ tokens : List Token, leavesSkippingAll skip (exchangeAll f tokens)
      = (leavesSkippingAll skip tokens).map (exchange f)
  | [] => by rw [exchangeAll, leavesSkippingAll, List.map_nil]
  | token :: tokens => by
    rw [exchangeAll, leavesSkippingAll, leavesSkippingAll, List.map_append,
      leavesSkipping_exchange f skip token, leavesSkippingAll_exchange f skip tokens]

end

theorem isSeparator_leaf_iff : (Token.leaf leaf text).isSeparator = true ↔ leaf = .separator := by
  cases leaf <;> first
    | exact iff_of_true rfl rfl
    | exact iff_of_false Bool.false_ne_true nofun

/-- **What is barred is no separator**, so an exchange makes none and takes none
away. -/
theorem isSeparator_exchange (h : Exchanges kind f) (token : Token) :
    (token.exchange f).isSeparator = token.isSeparator := by
  cases token with
  | parent =>
    rw [exchange]
    rfl
  | leaf leaf text =>
    rw [exchange]
    rcases h leaf with hsame | ⟨hcontent, hbarred⟩
    · rw [hsame]
    · have hnew : f leaf ≠ .separator := by
        intro heq
        rw [heq] at hbarred
        cases kind <;> exact absurd hbarred (by decide)
      rw [Bool.eq_iff_iff, isSeparator_leaf_iff, isSeparator_leaf_iff]
      exact iff_of_false hnew hcontent

theorem sectionsFrom_exchange (h : Exchanges kind f) (current : Option Token)
    (children : List Token) :
    sectionsFrom (current.map (exchange f)) (exchangeAll f children)
      = (sectionsFrom current children).map (Option.map (exchange f)) := by
  induction children generalizing current with
  | nil =>
    rw [exchangeAll]
    rfl
  | cons child children ih =>
    rw [exchangeAll]
    have hsame := isSeparator_exchange h child
    cases hseparator : child.isSeparator with
    | true =>
      rw [sectionsFrom_cons_of_separator hseparator,
        sectionsFrom_cons_of_separator (hsame.trans hseparator), List.map_cons, ← ih none]
      rfl
    | false =>
      rw [sectionsFrom_cons_of_content hseparator,
        sectionsFrom_cons_of_content (hsame.trans hseparator), ← ih (some child)]
      rfl

/-- **No leaf is looked for among the barred ones.** The check asks for fillers
and places for text; what a purpose bars is another list, and the two have no
leaf in common. -/
theorem allowsLeaf_of_mem_barred (h : leaf.terminal ∈ kind.barred) :
    kind.allowsLeaf leaf = true := by
  have hnone : ∀ kind : Kind, ∀ terminal ∈ kind.barred,
      terminal ∉ [Terminal.star, .underscore, .textPlaceholder] := by
    intro kind
    cases kind <;> decide
  have hleaf := hnone kind _ h
  cases leaf with
  | star c => exact absurd (List.mem_cons_self : Terminal.star ∈ _) hleaf
  | underscore c => exact absurd (by decide : Terminal.underscore ∈ _) hleaf
  | textPlaceholder => exact absurd (by decide : Terminal.textPlaceholder ∈ _) hleaf
  | _ => rfl

mutual

/-- What is not out of place is not so after an exchange. -/
theorem intruder?_exchange (h : Exchanges kind f) :
    ∀ token : Token, intruder? kind token = none → intruder? kind (token.exchange f) = none
  | .leaf found _, hnone => by
    rw [exchange]
    rcases h found with hsame | ⟨-, hbarred⟩
    · rwa [hsame]
    · rw [intruder?, if_pos (allowsLeaf_of_mem_barred hbarred)]
  | .parent block children text, hnone => by
    rw [exchange, intruder?]
    rw [intruder?] at hnone
    split at hnone
    · rename_i hblock
      rw [if_pos hblock]
      exact intruderIn?_exchange h children hnone
    · cases hnone

theorem intruderIn?_exchange (h : Exchanges kind f) :
    ∀ tokens : List Token, intruderIn? kind tokens = none →
      intruderIn? kind (exchangeAll f tokens) = none
  | [], _ => by rw [exchangeAll, intruderIn?]
  | token :: tokens, hnone => by
    rw [intruderIn?, Option.or_eq_none_iff] at hnone
    rw [exchangeAll, intruderIn?, intruder?_exchange h token hnone.1,
      intruderIn?_exchange h tokens hnone.2]
    rfl

end

theorem isNumeric_eq_false (h : leaf.terminal ∈ Kind.numberFormat.barred) :
    leaf.isNumeric = false := by
  cases leaf <;> first | rfl | exact absurd h (by simp [LeafKind.terminal, Kind.barred])

theorem numericLeaf?_exchange (h : Exchanges .numberFormat f) (hnone : numericLeaf? token = none) :
    numericLeaf? (token.exchange f) = none := by
  unfold numericLeaf? at hnone ⊢
  rw [Token.leaves, leavesSkipping_exchange, List.find?_map, Option.map_eq_none_iff,
    List.find?_eq_none]
  rw [List.find?_eq_none] at hnone
  intro leaf hleaf
  have hold := hnone leaf hleaf
  cases leaf with
  | parent =>
    rw [Function.comp_apply, exchange]
    exact Bool.false_ne_true
  | leaf leaf text =>
    rw [Function.comp_apply, exchange]
    rcases h leaf with hsame | ⟨-, hbarred⟩
    · rwa [hsame]
    · show ¬(f leaf).isNumeric = true
      rw [isNumeric_eq_false hbarred]
      exact Bool.false_ne_true

theorem sectionFault?_exchange (h : Exchanges kind f) {index : ℕ} {isLast : Bool}
    (hnone : sectionFault? kind index isLast token = none) :
    sectionFault? kind index isLast (token.exchange f) = none := by
  unfold sectionFault? at hnone ⊢
  rw [parentKind?_exchange]
  split at hnone
  · cases hnone
  · split at hnone
    · cases hnone
    · rename_i hallowed
      rw [if_neg hallowed]
      split at hnone
      · cases hnone
      · rename_i hlast
        rw [if_neg hlast]
        simp only [Option.or_eq_none_iff] at hnone ⊢
        rw [children_exchange]
        refine ⟨?_, intruderIn?_exchange h _ hnone.2⟩
        split
        · rename_i hnumeric
          rw [if_pos hnumeric] at hnone
          obtain rfl : kind = .numberFormat := by
            rw [Bool.and_eq_true] at hnumeric
            exact eq_of_beq hnumeric.1
          exact numericLeaf?_exchange h hnone.1
        · rfl

theorem sectionsFault?_exchange (h : Exchanges kind f) (sections : List (Option Token)) :
    ∀ index, sectionsFault? kind index sections = none →
      sectionsFault? kind index (sections.map (Option.map (exchange f))) = none := by
  induction sections with
  | nil => exact fun _ _ => rfl
  | cons found sections ih =>
    intro index hnone
    cases found with
    | none => exact ih (index + 1) hnone
    | some token =>
      obtain ⟨hsection, hrest⟩ := Option.or_eq_none_iff.1 hnone
      refine Option.or_eq_none_iff.2 ⟨?_, ih (index + 1) hrest⟩
      rw [List.isEmpty_map]
      exact sectionFault?_exchange h hsection

/-- **The check passes over an exchange**, as its sections, its leaves and its
kinds of nodes are what they were to it. -/
theorem fault?_exchange (h : Exchanges kind f) (hnone : fault? kind tree = none) :
    fault? kind (tree.exchange f) = none := by
  have hsections : (tree.exchange f).sections = tree.sections.map (Option.map (exchange f)) := by
    unfold Token.sections
    rw [children_exchange, ← sectionsFrom_exchange h none]
    rfl
  unfold fault? at hnone ⊢
  rw [parentKind?_exchange, hsections]
  split at hnone
  · cases hnone
  · rename_i hexpression
    rw [if_neg hexpression]
    dsimp only at hnone ⊢
    rw [List.length_map]
    split at hnone
    · split at hnone
      · cases hnone
      · rename_i hfew
        rw [if_neg hfew, Option.map_eq_none_iff]
        exact sectionsFault?_exchange h _ 0 (Option.map_eq_none_iff.1 hnone)
    · rw [Option.map_eq_none_iff]
      exact sectionsFault?_exchange h _ 0 (Option.map_eq_none_iff.1 hnone)

/-- **What of an accepted tree is certain, and what is not.** If the tree was
read, by whatever parts, it has no leaf that its purpose bars. If it was made
otherwise nothing follows: whatever leaves but separators become such leaves,
the tree is as whole as before and accepted as before. -/
theorem leaves_of_ofToken? {pattern : Pattern} (h : ofToken? kind tree = .ok pattern) :
    (∀ alternatives text, wholePattern? standard alternatives text = .ok tree → Lacks kind tree) ∧
      ∀ f, Exchanges kind f → (tree.Whole → (tree.exchange f).Whole) ∧
        ofToken? kind (tree.exchange f) = .ok ⟨kind, tree.exchange f⟩ := by
  obtain ⟨hnone, -⟩ := ofToken?_eq_ok_iff.1 h
  exact ⟨fun _ _ hread => lacks_of_wholePattern? hread hnone, fun f hf =>
    ⟨Token.Whole.exchange f, ofToken?_eq_ok_iff.2 ⟨fault?_exchange hf hnone, rfl⟩⟩⟩

/-- Days in the place of everything but separators: the coarsest exchange there
is. -/
def allDays : LeafKind → LeafKind
  | .separator => .separator
  | _ => .day 1

/-- A time that was read has no days, and is accepted with days in it all the
same. -/
theorem leaves_of_ofToken?_time :
    ∃ tree, wholePattern? standard [.time] "hh:mm".toList = .ok tree ∧
      Lacks .timeFormat tree ∧
      ofToken? .timeFormat (tree.exchange allDays)
        = .ok ⟨.timeFormat, tree.exchange allDays⟩ := by
  have hread : ((wholePattern? standard [.time] "hh:mm".toList).toOption.any fun tree =>
      (fault? .timeFormat tree).isNone) = true := by decide +kernel
  obtain ⟨tree, htree, hnone⟩ := (Option.any_eq_true ..).1 hread
  have htree := eq_ok_of_toOption htree
  have h := leaves_of_ofToken? (ofToken?_eq_ok_iff.2 ⟨Option.isNone_iff_eq_none.1 hnone, rfl⟩)
  refine ⟨tree, htree, h.1 _ _ htree, (h.2 _ fun leaf => ?_).2⟩
  cases leaf with
  | separator => exact .inl rfl
  | _ => exact .inr ⟨nofun, List.mem_cons_self⟩

/-- A date of nothing but hours. -/
def hourAsDate : Token :=
  .parent .expression [.parent .date [.leaf (.hour 2) "hh".toList] "hh".toList] "hh".toList

/-- **A date of hours is accepted.** -/
theorem hours_in_date :
    hourAsDate.Whole ∧ ofToken? .dateFormat hourAsDate = .ok ⟨.dateFormat, hourAsDate⟩ ∧
      ¬Lacks .dateFormat hourAsDate := by
  have hdate : Whole (.parent .date [.leaf (.hour 2) "hh".toList] "hh".toList) :=
    @Whole.parent .date [.leaf (.hour 2) "hh".toList]
      (List.forall_mem_singleton.2 (.leaf (by decide))) (by decide)
  exact ⟨@Whole.parent .expression [_] (List.forall_mem_singleton.2 hdate) (by decide), rfl,
    fun h => h (.hour 2) List.mem_cons_self List.mem_cons_self⟩

end Worksheet.Pattern
