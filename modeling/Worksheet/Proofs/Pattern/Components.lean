import Mathlib.Data.List.Chain
import Worksheet.Pattern.Moment
import Worksheet.Proofs.Pattern.Joined

/-!
# Spaces between components

The components of a date or a time are read off the leaves of its section. A run
of spaces is one leaf, since it is scanned to its end, and every other leaf is a
component of its own or a zero of a fraction. So in a section that may be read
there are never two components of spaces next to each other, and each is made of
spaces (`spaced_of_stands`). A reader of moments takes any spaces for a
component of spaces, and two of them in a row could not be told apart.

The leaves are followed through the derivation of a section (`Parses`). What one
component of the grammar shows is one of three things (`Shown`), by cases on the
alternatives of its rule. A section is a row of them, read from the last to the
first (`Parses.repetition_induction`, `Row.cons`), with blocks in front that
show nothing (`Parses.shownLeaves_prefix`).
-/

namespace Worksheet.Pattern

open Ebnf Token

variable {grammar : Grammar Terminal} {e part : Expr (Symbol Terminal)}
  {parts : List (Expr (Symbol Terminal))} {input mid rest : List Char} {tokens : List Token}

/-! ## Parts of a derivation

A derivation of a given rule is taken apart by the shape of its expression. The
rules stay numbers here, and what is at a number is looked up in the grammar by
computation. -/

/-- What comes of a terminal: one leaf, of the kind that is scanned, with the
text that is taken. This and the next lemmas invert `Parses` for one way of
making an expression each. -/
theorem Parses.exists_of_piece {terminal : Terminal}
    (h : Parses grammar (piece terminal) input tokens rest) :
    ∃ kind, terminal.scan? input = some (kind, rest)
      ∧ tokens = [.leaf kind (Text.before input rest)] := by
  cases h with
  | terminal hscan => exact ⟨_, hscan, rfl⟩

theorem Parses.exists_of_choice (h : Parses grammar (.choice parts) input tokens rest) :
    ∃ part ∈ parts, Parses grammar part input tokens rest := by
  cases h with
  | choice hmem hpart => exact ⟨_, hmem, hpart⟩

/-- What comes of a sequence comes of its first part and then of the others. -/
theorem Parses.exists_of_sequence
    (h : Parses grammar (.sequence (part :: parts)) input tokens rest) :
    ∃ first mid more, tokens = first ++ more ∧ Parses grammar part input first mid
      ∧ Parses grammar (.sequence parts) mid more rest := by
  cases h with
  | cons hpart hmore => exact ⟨_, _, _, rfl, hpart, hmore⟩

theorem Parses.of_splice {index : ℕ} {rule : Rule (Symbol Terminal)}
    (hrule : grammar.rules[index]? = some rule) (hshape : shapeOf? rule.name = none)
    (h : Parses grammar (ruleAt index) input tokens rest) :
    Parses grammar rule.body input tokens rest := by
  cases h with
  | splice hrule' hshape' hbody =>
    obtain rfl := Option.some.inj (hrule.symm.trans hrule')
    exact hbody
  | node hrule' hshape' =>
    obtain rfl := Option.some.inj (hrule.symm.trans hrule')
    rw [hshape] at hshape'
    cases hshape'

/-- What comes of a rule with a node is the node over what comes of its
expression. -/
theorem Parses.exists_of_node {index : ℕ} {rule : Rule (Symbol Terminal)} {shape : Shape}
    (hrule : grammar.rules[index]? = some rule) (hshape : shapeOf? rule.name = some shape)
    (h : Parses grammar (ruleAt index) input tokens rest) :
    ∃ children token, tokens = [token] ∧ shape.build? children = some token
      ∧ Parses grammar rule.body input children rest := by
  cases h with
  | splice hrule' hshape' hbody =>
    obtain rfl := Option.some.inj (hrule.symm.trans hrule')
    rw [hshape] at hshape'
    cases hshape'
  | node hrule' hshape' hbuild hbody =>
    obtain rfl := Option.some.inj (hrule.symm.trans hrule')
    obtain rfl := Option.some.inj (hshape.symm.trans hshape')
    exact ⟨_, _, rfl, hbuild, hbody⟩

/-- **What comes of a repetition**, round by round from the last to the first.
`Parses` is not recursive in the rounds alone, so the induction is made once
here, with the other cases out of the way. -/
theorem Parses.repetition_induction {motive : List Char → List Token → Prop}
    (h : Parses grammar (.repetition part) input tokens rest) (stop : motive rest [])
    (round : ∀ {input mid : List Char} {tokens more : List Token},
      Parses grammar part input tokens mid → motive mid more → motive input (tokens ++ more)) :
    motive input tokens := by
  generalize he : Expr.repetition part = e at h
  induction h with
  | stop =>
    exact stop
  | round hpart hmore _ ih =>
    obtain rfl := Expr.repetition.inj he
    exact round hpart (ih stop rfl)
  | _ => cases he

/-! ## Leaves that are components

Colours, conditions and the zeros of a fraction are leaves that give no
component of their own. All other leaves that a section of a date or a time may
have are `LeafKind.isShown`, with the spaces as the one kind that is asked
about. -/

/-- The spaces a component is. -/
def Component.blank? : Component → Option (List Char)
  | .whitespace text => some text
  | _ => none

/-- The leaves a part of a section shows. Colours and conditions are read but
show nothing. -/
def shownLeaves (tokens : List Token) : List Token :=
  tokens.flatMap fun token => token.leavesSkipping ParentKind.isBlock

/-- The leaves that are a component of their own, other than spaces. -/
def LeafKind.isShown : LeafKind → Bool
  | .day _ | .month _ | .monthOrMinute _ | .year _ | .hour _ | .second _ | .amPm
  | .quotedText _ | .escape _ | .textLiteral _ => true
  | _ => false

def Terminal.isShown : Terminal → Bool
  | .day | .month | .monthOrMinute | .year | .hour | .second | .amPm
  | .quotedText | .escape | .textLiteral => true
  | _ => false

/-- A run of a letter is a leaf of the letter, with the length of the run, which
is taken to its end. -/
theorem Terminal.repeated_eq_some {letter : Char} {make : ℕ → LeafKind} {kind : LeafKind}
    (h : Terminal.repeated letter make input = some (kind, rest)) : ∃ run,
      kind = make run.length ∧ input = run ++ rest ∧ run ≠ []
        ∧ (∀ c ∈ run, c.toUpper = letter.toUpper)
        ∧ Text.Stops (fun c => c.toUpper == letter.toUpper) rest := by
  unfold Terminal.repeated at h
  simp only at h
  split at h
  · cases h
  · rename_i hrun
    obtain ⟨rfl, rfl⟩ := Prod.mk.inj (Option.some.inj h)
    refine ⟨_, rfl, (Text.takeRun_append _ _).symm, mt List.isEmpty_iff.2 hrun,
      fun c hc => ?_, Text.stops_dropWhile _ input⟩
    exact beq_iff_eq.1
      (List.mem_takeWhile_imp (p := fun c : Char => c.toUpper == letter.toUpper) hc)

theorem Terminal.single_eq_some {char : Char} {expected kind : LeafKind}
    (h : Terminal.single char expected input = some (kind, rest)) : kind = expected := by
  unfold Terminal.single at h
  split at h
  · obtain ⟨-, h⟩ := Option.ite_none_right_eq_some.1 h
    exact (Prod.mk.inj (Option.some.inj h)).1.symm
  · cases h

theorem Terminal.marked_eq_some {marker : Char} {make : Char → LeafKind} {kind : LeafKind}
    (h : Terminal.marked marker make input = some (kind, rest)) : ∃ c, kind = make c := by
  unfold Terminal.marked at h
  split at h
  · obtain ⟨-, h⟩ := Option.ite_none_right_eq_some.1 h
    exact ⟨_, (Prod.mk.inj (Option.some.inj h)).1.symm⟩
  · cases h

theorem Terminal.quotation_eq_some {kind : LeafKind}
    (h : Terminal.quotation input = some (kind, rest)) : ∃ inside, kind = .quotedText inside := by
  unfold Terminal.quotation at h
  split at h
  · split at h
    · exact ⟨_, (Prod.mk.inj (Option.some.inj h)).1.symm⟩
    · cases h
  · cases h

theorem Terminal.textLiteral_eq_some {kind : LeafKind}
    (h : Terminal.textLiteral.scan? input = some (kind, rest)) :
    ∃ literal, kind = .textLiteral literal := by
  simp only [Terminal.scan?] at h
  split at h
  · obtain ⟨-, h⟩ := Option.ite_none_right_eq_some.1 h
    exact ⟨_, (Prod.mk.inj (Option.some.inj h)).1.symm⟩
  · cases h

theorem Terminal.exponentMark_eq_some {kind : LeafKind}
    (h : Terminal.exponentMark input = some (kind, rest)) : kind = .exponent := by
  unfold Terminal.exponentMark at h
  split at h
  · obtain ⟨-, h⟩ := Option.ite_none_right_eq_some.1 h
    exact (Prod.mk.inj (Option.some.inj h)).1.symm
  · cases h

/-- A terminal of leaves that are shown scans such a leaf. -/
theorem Terminal.isShown_of_scan? {terminal : Terminal} {kind : LeafKind}
    (h : terminal.isShown = true) (hscan : terminal.scan? input = some (kind, rest)) :
    kind.isShown = true := by
  cases terminal with
  | day | month | monthOrMinute | year | hour | second =>
    obtain ⟨run, rfl, -⟩ := Terminal.repeated_eq_some hscan
    rfl
  | amPm =>
    obtain ⟨rest, -, heq⟩ := Option.map_eq_some_iff.1 hscan
    obtain ⟨rfl, rfl⟩ := Prod.mk.inj heq
    rfl
  | quotedText =>
    obtain ⟨inside, rfl⟩ := Terminal.quotation_eq_some hscan
    rfl
  | escape =>
    obtain ⟨c, rfl⟩ := Terminal.marked_eq_some hscan
    rfl
  | textLiteral =>
    obtain ⟨literal, rfl⟩ := Terminal.textLiteral_eq_some hscan
    rfl
  | _ => cases h

/-- A run of spaces is scanned to its end: this is why two leaves of spaces
never meet. -/
theorem Terminal.spaces_of_scan? {kind : LeafKind}
    (hscan : Terminal.whitespace.scan? input = some (kind, rest)) :
    kind = .whitespace ∧ ∃ run, input = run ++ rest ∧ run ≠ [] ∧ (∀ c ∈ run, c = ' ')
      ∧ Text.Stops (· == ' ') rest := by
  have hspace : ∀ c : Char, c.toUpper = ' '.toUpper → c = ' ' := by
    intro c hc
    simpa [Text.bothCases] using Text.mem_bothCases hc.symm
  have hrepeated : Terminal.repeated ' ' (fun _ => .whitespace) input = some (kind, rest) := hscan
  obtain ⟨run, rfl, hinput, hsome, hrun, hstops⟩ := Terminal.repeated_eq_some hrepeated
  refine ⟨rfl, run, hinput, hsome, fun c hc => hspace c (hrun c hc), ?_⟩
  cases rest with
  | nil => rfl
  | cons c rest =>
    refine Text.stops_cons.2 (beq_eq_false_iff_ne.2 fun hc => ?_)
    rw [hc] at hstops
    exact Bool.false_ne_true ((Text.stops_cons.1 hstops).symm.trans (beq_self_eq_true _))

/-! ## Components one after the other

A component of the grammar is one leaf, or a second with a point and zeros.
`Shown` is what the induction over the section needs to know of either,
including that no space is left in front of the rest behind spaces. -/

/-- **The leaves of one component**, or of a second and its fraction, in front
of what is left. The rest `mid` does not begin with a space behind spaces. -/
inductive Shown (input mid : List Char) : List Token → Prop
  | spaces {run : List Char} (hinput : input.head? = some ' ') (hsome : run ≠ [])
      (hrun : ∀ c ∈ run, c = ' ') (hmid : Text.Stops (· == ' ') mid) :
      Shown input mid [.leaf .whitespace run]
  | other {kind : LeafKind} {text : List Char} (hkind : kind.isShown = true) :
      Shown input mid [.leaf kind text]
  | fraction {kind : LeafKind} {text point : List Char} {zeros : List Token}
      (hkind : kind.isShown = true) (hzeros : ∀ zero ∈ zeros, zero.leafKind? = some .digitZero) :
      Shown input mid (.leaf kind text :: .leaf .decimalPoint point :: zeros)

theorem Parses.shown_of_piece {terminal : Terminal} (hterminal : terminal.isShown = true)
    (h : Parses grammar (piece terminal) input tokens mid) :
    Shown input mid (shownLeaves tokens) := by
  obtain ⟨kind, hscan, rfl⟩ := h.exists_of_piece
  exact .other (Terminal.isShown_of_scan? hterminal hscan)

theorem allowsLeaf_of_intruder? {kind : Kind} {leaf : LeafKind} {text : List Char}
    (h : intruder? kind (.leaf leaf text) = none) : kind.allowsLeaf leaf = true := by
  rw [intruder?] at h
  split at h
  · assumption
  · cases h

/-- Literals; what fills up a cell is out of place in a section that may be
read, so it need not be considered. -/
theorem Parses.shown_of_literal {kind : Kind} (hparse : kind.isParse = true)
    (hfit : ∀ token ∈ tokens, intruder? kind token = none)
    (h : Parses standard (ruleAt 3) input tokens mid) :
    Shown input mid (shownLeaves tokens) := by
  have hfiller : ∀ leaf text, kind.allowsLeaf leaf = false → tokens ≠ [.leaf leaf text] := by
    rintro leaf text hleaf rfl
    rw [allowsLeaf_of_intruder? (hfit _ List.mem_cons_self)] at hleaf
    cases hleaf
  obtain ⟨part, hmem, h⟩ := (h.of_splice rfl rfl).exists_of_choice
  simp only [List.mem_cons, List.not_mem_nil, or_false] at hmem
  rcases hmem with rfl | rfl | rfl | rfl | rfl | rfl
  · exact h.shown_of_piece rfl
  · exact h.shown_of_piece rfl
  · obtain ⟨leaf, hscan, rfl⟩ := h.exists_of_piece
    obtain ⟨c, rfl⟩ := Terminal.marked_eq_some hscan
    exact absurd rfl (hfiller (.star c) _ (congrArg not hparse))
  · obtain ⟨leaf, hscan, rfl⟩ := h.exists_of_piece
    obtain ⟨c, rfl⟩ := Terminal.marked_eq_some hscan
    exact absurd rfl (hfiller (.underscore c) _ (congrArg not hparse))
  · obtain ⟨leaf, hscan, rfl⟩ := h.exists_of_piece
    obtain ⟨rfl, run, rfl, hsome, hrun, hmid⟩ := Terminal.spaces_of_scan? hscan
    rw [Text.before_append]
    obtain ⟨c, others, rfl⟩ := List.exists_cons_of_ne_nil hsome
    exact .spaces (congrArg some (hrun c List.mem_cons_self)) hsome hrun hmid
  · exact h.shown_of_piece rfl

/-- Literals between dates and times, which are those of every section and a few
characters more. -/
theorem Parses.shown_of_dateTimeLiteral {kind : Kind} (hparse : kind.isParse = true)
    (hfit : ∀ token ∈ tokens, intruder? kind token = none)
    (h : Parses standard (ruleAt 4) input tokens mid) :
    Shown input mid (shownLeaves tokens) := by
  obtain ⟨part, hmem, h⟩ := (h.of_splice rfl rfl).exists_of_choice
  simp only [List.mem_cons, List.not_mem_nil, or_false] at hmem
  rcases hmem with rfl | rfl | rfl
  · exact h.shown_of_literal hparse hfit
  · cases h
    exact .other rfl
  · cases h
    exact .other rfl

theorem Parses.zeros_of_repetition
    (h : Parses grammar (.repetition (piece .digitZero)) input tokens rest) :
    ∀ zero ∈ shownLeaves tokens, zero.leafKind? = some .digitZero := by
  refine h.repetition_induction (motive := fun _ tokens =>
    ∀ zero ∈ shownLeaves tokens, zero.leafKind? = some .digitZero) nofun ?_
  intro input mid tokens more hpart hmore
  obtain ⟨kind, hscan, rfl⟩ := hpart.exists_of_piece
  obtain rfl := @Terminal.single_eq_some _ _ '0' .digitZero _ hscan
  exact List.forall_mem_cons.2 ⟨rfl, hmore⟩

/-- A second and its fraction, if there is one: the point and the zeros are
leaves that belong to the component of the second. -/
theorem Parses.shown_of_second
    (h : Parses standard (.sequence [piece .second, .optional (ruleAt 14)]) input tokens mid) :
    Shown input mid (shownLeaves tokens) := by
  obtain ⟨_, _, _, rfl, hsecond, h⟩ := h.exists_of_sequence
  obtain ⟨_, _, _, rfl, hoptional, h⟩ := h.exists_of_sequence
  cases h
  obtain ⟨kind, hscan, rfl⟩ := hsecond.exists_of_piece
  have hkind := @Terminal.isShown_of_scan? _ _ .second _ rfl hscan
  cases hoptional with
  | absent => exact .other hkind
  | present hfraction =>
    obtain ⟨_, _, _, rfl, hpoint, h⟩ := (hfraction.of_splice rfl rfl).exists_of_sequence
    obtain ⟨_, _, _, rfl, hzero, h⟩ := h.exists_of_sequence
    obtain ⟨_, _, _, rfl, hzeros, h⟩ := h.exists_of_sequence
    cases h
    obtain ⟨point, hscan, rfl⟩ := hpoint.exists_of_piece
    obtain rfl := @Terminal.single_eq_some _ _ '.' .decimalPoint _ hscan
    obtain ⟨zero, hscan, rfl⟩ := hzero.exists_of_piece
    obtain rfl := @Terminal.single_eq_some _ _ '0' .digitZero _ hscan
    simp only [List.append_nil]
    exact .fraction hkind (List.forall_mem_cons.2 ⟨rfl, hzeros.zeros_of_repetition⟩)

/-- What a component of a date or a time can be, taken together for dates, times
and both. -/
def momentParts : List (Expr (Symbol Terminal)) :=
  [piece .day, piece .month, piece .year, piece .hour, piece .monthOrMinute,
    .sequence [piece .second, .optional (ruleAt 14)], piece .amPm, ruleAt 4]

/-- **A component is shown by its leaves**: a rule whose alternatives are among
`momentParts` has one of the three forms. -/
theorem Parses.shown_of_component {kind : Kind} (hparse : kind.isParse = true) {index : ℕ}
    {name : List Char} (hrule : standard.rules[index]? = some ⟨name, .choice parts⟩)
    (hshape : shapeOf? name = none) (hparts : parts ⊆ momentParts)
    (hfit : ∀ token ∈ tokens, intruder? kind token = none)
    (h : Parses standard (ruleAt index) input tokens mid) :
    Shown input mid (shownLeaves tokens) := by
  obtain ⟨part, hmem, h⟩ := (h.of_splice hrule hshape).exists_of_choice
  have hpart := hparts hmem
  simp only [momentParts, List.mem_cons, List.not_mem_nil, or_false] at hpart
  rcases hpart with rfl | rfl | rfl | rfl | rfl | rfl | rfl | rfl
  · exact h.shown_of_piece rfl
  · exact h.shown_of_piece rfl
  · exact h.shown_of_piece rfl
  · exact h.shown_of_piece rfl
  · exact h.shown_of_piece rfl
  · exact h.shown_of_second
  · exact h.shown_of_piece rfl
  · exact h.shown_of_dateTimeLiteral hparse hfit

/-! ## A whole section

The invariant is `Row`, which is extended at the front, from the last component
to the first. It joins what is known of the components to what is known of the
text that they begin. -/

namespace Component

/-- **Spaces are apart**: no two components of spaces are next to each other,
and each is made of spaces. Other components are nothing here. -/
structure Spaced (blanks : List (Option (List Char))) : Prop where
  apart : blanks.IsChain fun first second => first = none ∨ second = none
  texts : ∀ text, some text ∈ blanks → text ≠ [] ∧ ∀ c ∈ text, c = ' '

theorem Spaced.cons {blank : Option (List Char)} {blanks : List (Option (List Char))}
    (h : Spaced blanks) (hapart : ∀ next ∈ blanks.head?, blank = none ∨ next = none)
    (htext : ∀ text ∈ blank, text ≠ [] ∧ ∀ c ∈ text, c = ' ') : Spaced (blank :: blanks) where
  apart := List.isChain_cons.2 ⟨hapart, h.apart⟩
  texts := by
    intro text hmem
    rcases List.mem_cons.1 hmem with rfl | hmem
    · exact htext text rfl
    · exact h.texts text hmem

theorem Spaced.tail {blank : Option (List Char)} {blanks : List (Option (List Char))}
    (h : Spaced (blank :: blanks)) : Spaced blanks where
  apart := (List.isChain_cons.1 h.apart).2
  texts := fun text hmem => h.texts text (List.mem_cons_of_mem _ hmem)

variable {minutes : Bool} {leaves : List Token}

/-- The spaces among the components of some leaves. Whether a component is a
month or a minute is not yet settled here (`unresolved`), and makes no
difference to spaces. -/
def blanks (minutes : Bool) (leaves : List Token) : List (Option (List Char)) :=
  (unresolved minutes leaves).1.map fun component => component.1.blank?

theorem unresolved_shown {kind : LeafKind} (hkind : kind.isShown = true) (text : List Char) :
    ∃ component, unresolved minutes (.leaf kind text :: leaves)
        = (component :: (unresolved minutes leaves).1, 0)
      ∧ component.1.blank? = none := by
  cases kind with
  | monthOrMinute count => cases minutes <;> exact ⟨_, rfl, rfl⟩
  | day | month | year | hour | second | amPm | quotedText | escape | textLiteral =>
    exact ⟨_, rfl, rfl⟩
  | _ => cases hkind

/-- The zeros of a fraction are counted and are no components. -/
theorem unresolved_zeros {zeros : List Token}
    (hzeros : ∀ zero ∈ zeros, zero.leafKind? = some .digitZero) :
    (unresolved minutes (zeros ++ leaves)).1 = (unresolved minutes leaves).1 := by
  induction zeros with
  | nil => rfl
  | cons zero zeros ih =>
    obtain ⟨hzero, hmore⟩ := List.forall_mem_cons.1 hzeros
    cases zero with
    | leaf kind text =>
      obtain rfl := Option.some.inj hzero
      exact ih hmore
    | parent => exact ih hmore

/-- The components of the rest of a section: there are no zeros before the
first, spaces are apart, and when it begins with spaces so does the text. The
last field is what lets the component in front be seen to be no spaces. -/
structure Row (minutes : Bool) (input : List Char) (leaves : List Token) : Prop where
  zeros : (unresolved minutes leaves).2 = 0
  spaced : Spaced (blanks minutes leaves)
  head : ∀ text, (blanks minutes leaves).head? = some (some text) → input.head? = some ' '

theorem Row.cons_other {input mid : List Char} {more : List Token} (hmore : Row minutes mid more)
    {component : Component × Bool}
    (hunresolved : unresolved minutes leaves = (component :: (unresolved minutes more).1, 0))
    (hblank : component.1.blank? = none) : Row minutes input leaves := by
  have hblanks : blanks minutes leaves = none :: blanks minutes more := by
    rw [blanks, hunresolved, List.map_cons, hblank, blanks]
  refine ⟨by rw [hunresolved], hblanks ▸ hmore.spaced.cons (fun _ _ => .inl rfl) nofun, ?_⟩
  rw [hblanks]
  exact nofun

/-- **One more component**, by what its leaves are. Spaces in front of a row are
followed by no space in the text, hence by no spaces in the row. -/
theorem Row.cons {input mid : List Char} {more : List Token} (hmore : Row minutes mid more)
    (h : Shown input mid leaves) : Row minutes input (leaves ++ more) := by
  cases h with
  | spaces hinput hsome hrun hmid =>
    refine ⟨rfl, hmore.spaced.cons ?_ ?_, fun _ _ => hinput⟩
    · -- what is left does not begin with a space
      intro next hnext
      cases next with
      | none => exact .inr rfl
      | some text =>
        have hhead := hmore.head text hnext
        rw [Text.Stops, hhead] at hmid
        cases hmid
    · rintro text ⟨⟩
      exact ⟨hsome, hrun⟩
  | other hkind =>
    rename_i kind text
    obtain ⟨component, hunresolved, hblank⟩ := unresolved_shown hkind text
    exact hmore.cons_other hunresolved hblank
  | fraction hkind hzeros =>
    rename_i kind text point zeros
    -- the point and its zeros are one component, which counts the zeros behind
    -- it
    have hpoint : unresolved minutes (.leaf .decimalPoint point :: (zeros ++ more))
        = ((.secondFraction (unresolved minutes (zeros ++ more)).2, false)
          :: (unresolved minutes more).1, 0) := by
      rw [← unresolved_zeros hzeros]
      rfl
    have hfraction : Row minutes mid _ := hmore.cons_other hpoint rfl
    obtain ⟨component, hunresolved, hblank⟩ := unresolved_shown hkind text
    exact hfraction.cons_other hunresolved hblank

/-- Telling months from minutes does not touch spaces. -/
theorem map_blank?_resolve (previous : Option Component) (components : List (Component × Bool)) :
    (resolve previous components).map blank?
      = components.map fun component => component.1.blank? := by
  induction components generalizing previous with
  | nil => rfl
  | cons component components ih =>
    obtain ⟨component, ambiguous⟩ := component
    refine congrArg₂ List.cons ?_ (ih _)
    cases component with
    | month count =>
      dsimp only
      split <;> rfl
    | _ => rfl

end Component

variable {kind : Kind} {text : List Char} {token : Token}

theorem exists_isBlock_of_build? {shape : Shape}
    (hshape : shape = .node .colour ∨ shape = .condition)
    (h : shape.build? tokens = some token) :
    ∃ kind, kind.isBlock = true ∧ token = .parent kind tokens (joinedText tokens) := by
  rcases hshape with rfl | rfl
  · exact ⟨.colour, rfl, (parent?_eq_ok_iff.1 (eq_ok_of_toOption h)).2⟩
  · unfold Shape.build? at h
    dsimp only at h
    split at h
    · exact ⟨.condition _, rfl, (parent?_eq_ok_iff.1 (eq_ok_of_toOption h)).2⟩
    · cases h

theorem shownLeaves_append (tokens more : List Token) :
    shownLeaves (tokens ++ more) = shownLeaves tokens ++ shownLeaves more :=
  List.flatMap_append

theorem Parses.blocks_of_prefix (h : Parses standard (ruleAt 2) input tokens mid) :
    ∀ token ∈ tokens, ∃ kind children text, kind.isBlock = true ∧
      token = .parent kind children text := by
  refine (h.of_splice rfl rfl).repetition_induction (motive := fun _ tokens =>
    ∀ token ∈ tokens, ∃ kind children text, kind.isBlock = true ∧
      token = .parent kind children text) nofun ?_
  intro input mid tokens more hpart hmore
  obtain ⟨part, hmem, hpart⟩ := hpart.exists_of_choice
  simp only [List.mem_cons, List.not_mem_nil, or_false] at hmem
  rcases hmem with rfl | rfl
  · obtain ⟨children, token, rfl, hbuild, -⟩ := hpart.exists_of_node rfl rfl
    obtain ⟨kind, hblock, rfl⟩ := exists_isBlock_of_build? (.inl rfl) hbuild
    exact List.forall_mem_cons.2 ⟨⟨kind, _, _, hblock, rfl⟩, hmore⟩
  · obtain ⟨children, token, rfl, hbuild, -⟩ := hpart.exists_of_node rfl rfl
    obtain ⟨kind, hblock, rfl⟩ := exists_isBlock_of_build? (.inr rfl) hbuild
    exact List.forall_mem_cons.2 ⟨⟨kind, _, _, hblock, rfl⟩, hmore⟩

/-- Blocks show nothing, however many there are in front of the components. -/
theorem Parses.shownLeaves_prefix (h : Parses standard (ruleAt 2) input tokens mid) :
    shownLeaves tokens = [] := by
  refine List.flatMap_eq_nil_iff.2 fun token hmem => ?_
  obtain ⟨kind, children, text, hblock, rfl⟩ := h.blocks_of_prefix token hmem
  rw [Token.leavesSkipping, if_pos hblock]

/-- **The components of a section**, one after the other, by induction on the
rounds of its repetition. -/
theorem Parses.row (hparse : kind.isParse = true) {index : ℕ} {name : List Char}
    (hrule : standard.rules[index]? = some ⟨name, .choice parts⟩)
    (hshape : shapeOf? name = none) (hparts : parts ⊆ momentParts) (minutes : Bool)
    (h : Parses standard (.repetition (ruleAt index)) input tokens rest) :
    (∀ token ∈ tokens, intruder? kind token = none) →
      Component.Row minutes input (shownLeaves tokens) := by
  refine h.repetition_induction (motive := fun input tokens =>
    (∀ token ∈ tokens, intruder? kind token = none) →
      Component.Row minutes input (shownLeaves tokens)) ?_ ?_
  · exact fun _ => ⟨rfl, ⟨.nil, nofun⟩, nofun⟩
  · intro input mid tokens more hpart hmore hfit
    obtain ⟨htokens, hrest⟩ := List.forall_mem_append.1 hfit
    rw [shownLeaves_append]
    exact (hmore hrest).cons (hpart.shown_of_component hparse hrule hshape hparts htokens)

theorem forall_of_intruderIn? (h : intruderIn? kind tokens = none) :
    ∀ token ∈ tokens, intruder? kind token = none := by
  induction tokens with
  | nil => exact nofun
  | cons token tokens ih =>
    rw [intruderIn?, Option.or_eq_none_iff] at h
    exact List.forall_mem_cons.2 ⟨h.1, ih h.2⟩

/-- **Spaces are apart in a section that is read**: blocks show nothing, and
behind them there is one component after the other. It is stated for any rule of
blocks and components, as there are three. -/
theorem spaced_of_parses (hparse : kind.isParse = true) {index component : ℕ}
    {name componentName : List Char} {shape : ParentKind}
    (hrule : standard.rules[index]? = some ⟨name, .sequence (ruleAt 2 :: oneOrMore component)⟩)
    (hshape : shapeOf? name = some (.node shape))
    (hcomponent : standard.rules[component]? = some ⟨componentName, .choice parts⟩)
    (hname : shapeOf? componentName = none) (hparts : parts ⊆ momentParts)
    (hfit : intruderIn? kind token.children = none) (minutes : Bool)
    (h : Parses standard (ruleAt index) input [token] rest) :
    Component.Spaced ((Component.ofLeaves minutes (contentLeaves token)).map
      Component.blank?) := by
  obtain ⟨children, node, hnode, hbuild, hbody⟩ := h.exists_of_node hrule hshape
  obtain rfl := List.singleton_inj.1 hnode
  obtain ⟨-, rfl⟩ := parent?_eq_ok_iff.1 (eq_ok_of_toOption hbuild)
  have hchildren := forall_of_intruderIn? hfit
  rw [Component.ofLeaves, Component.map_blank?_resolve]
  obtain ⟨_, _, _, rfl, hprefix, hbody⟩ := hbody.exists_of_sequence
  obtain ⟨_, _, _, rfl, hfirst, hbody⟩ := hbody.exists_of_sequence
  obtain ⟨_, _, _, rfl, hmore, hbody⟩ := hbody.exists_of_sequence
  cases hbody
  simp only [List.append_nil] at hchildren ⊢
  have hrow := (Parses.round hfirst hmore).row hparse hcomponent hname hparts minutes
    fun token hmem => hchildren token (List.mem_append_right _ hmem)
  show Component.Spaced (Component.blanks minutes (shownLeaves (_ ++ (_ ++ _))))
  rw [shownLeaves_append, hprefix.shownLeaves_prefix, List.nil_append]
  exact hrow.spaced

/-- **Spaces are apart in a section for reading dates or times**, whichever of
the three kinds of pattern it stands in. -/
theorem spaced_of_stands {part : Part} (hparse : kind.isParse = true)
    (hnumber : kind ≠ .numberParse) (hpart : kind.alternatives = [part])
    (h : Stands kind part text token) (minutes : Bool) :
    Component.Spaced ((Component.ofLeaves minutes (contentLeaves token)).map
      Component.blank?) := by
  have hfit := (passes_of_sectionFault? h.faultless).2
  have hparses : Parses standard (ruleAt part.index) text [token] [] :=
    parses_of_evaluateRule standard _ _ _ _ _ (readPart_standard_iff.1 h.read)
  cases kind with
  | dateParse | dateTimeParse | timeParse =>
    obtain rfl := List.singleton_inj.1 hpart
    exact spaced_of_parses rfl rfl rfl rfl rfl (by simp [momentParts]) hfit minutes hparses
  | numberParse => exact absurd rfl hnumber
  | _ => cases hparse

end Worksheet.Pattern
