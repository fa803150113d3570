import Mathlib.Data.List.ReduceOption
import Worksheet.Pattern.Basic
import Worksheet.Proofs.Pattern.Spelling

/-!
# What the sections of a tree leave out

A pattern is checked and used by its sections, and a section is the last node
between two separators. In a pattern that was read from a text there is at most
one. A tree that is made in another way may have more of them, and then only the
last one is a section: those in front of it are part of the pattern's text, but
nothing ever looks at them.

So a tree is accounted for by its sections if and only if no two of its nodes
stand together without a separator (`Token.Alternates`). Then, and only then,
the sections are all its nodes that are no separators
(`reduceOption_sectionsFrom_eq_iff`), and the sections and the separators have
its text (`interleaved_sectionsFrom_eq_iff`). The checks ask for no such thing:
any node at all may be put in front of a section (`fault?_stowaway`).
-/

namespace Worksheet.Pattern

namespace Token

/-- Whether a node separates sections. -/
def isSeparator (token : Token) : Bool :=
  token.leafKind? == some .separator

/-- **Nodes alternate with separators**: of two neighbours one is a separator.
Two separators in a row are allowed, with an empty section between them. -/
def Alternates (tokens : List Token) : Prop :=
  tokens.IsChain fun a b => a.isSeparator = true ∨ b.isSeparator = true

/-- The nodes of a tree that are to be sections. -/
def contents (tokens : List Token) : List Token :=
  tokens.filter fun token => !token.isSeparator

def separatorTexts (tokens : List Token) : List (List Char) :=
  (tokens.filter isSeparator).map text

def sectionText (part : Option Token) : List Char :=
  (part.map text).getD []

/-- The texts of sections with the texts of separators between them: what a tree
would be written as if its sections were all there is. -/
def interleaved (parts : List (Option Token)) (separators : List (List Char)) : List Char :=
  (List.zipWith (· ++ ·) (parts.map sectionText) (separators ++ [[]])).flatten

variable {token : Token} {tokens : List Token}

theorem contents_cons_of_separator (h : token.isSeparator = true) :
    contents (token :: tokens) = contents tokens := by
  rw [contents, List.filter_cons_of_neg (by rw [h]; decide)]
  rfl

theorem contents_cons_of_content (h : token.isSeparator = false) :
    contents (token :: tokens) = token :: contents tokens := by
  rw [contents, List.filter_cons_of_pos (by rw [h]; decide)]
  rfl

theorem separatorTexts_cons_of_separator (h : token.isSeparator = true) :
    separatorTexts (token :: tokens) = token.text :: separatorTexts tokens := by
  rw [separatorTexts, List.filter_cons_of_pos h]
  rfl

theorem separatorTexts_cons_of_content (h : token.isSeparator = false) :
    separatorTexts (token :: tokens) = separatorTexts tokens := by
  rw [separatorTexts, List.filter_cons_of_neg (by rw [h]; decide)]
  rfl

theorem joinedText_cons (token : Token) (tokens : List Token) :
    joinedText (token :: tokens) = token.text ++ joinedText tokens :=
  List.flatMap_cons

/-- A separator goes with whatever comes next. -/
theorem alternates_cons_of_separator (h : token.isSeparator = true) :
    Alternates (token :: tokens) ↔ Alternates tokens := by
  cases tokens with
  | nil => exact iff_of_true (.singleton token) .nil
  | cons next tokens =>
    rw [Alternates, List.isChain_cons_cons]
    exact and_iff_right (Or.inl h)

theorem not_alternates_of_contents {first second : Token} (h : first.isSeparator = false)
    (h' : second.isSeparator = false) : ¬ Alternates (first :: second :: tokens) := by
  rw [Alternates, List.isChain_cons_cons, h, h']
  simp

end Token

open Token

variable {kind : Kind} {token : Token} {children : List Token} {current : Option Token}

/-! ## One node after the other

The recursion of `sectionsFrom` keeps one pending node, and a second one takes
its place. So a node is lost exactly when another one follows it before a
separator. -/

theorem sectionsFrom_cons_of_separator (h : token.isSeparator = true) :
    sectionsFrom current (token :: children) = current :: sectionsFrom none children :=
  if_pos h

theorem sectionsFrom_cons_of_content (h : token.isSeparator = false) :
    sectionsFrom current (token :: children) = sectionsFrom (some token) children :=
  if_neg (by rw [← isSeparator, h]; decide)

theorem interleaved_cons (part : Option Token) (parts : List (Option Token))
    (separator : List Char) (separators : List (List Char)) :
    interleaved (part :: parts) (separator :: separators)
      = sectionText part ++ separator ++ interleaved parts separators :=
  rfl

/-- **Sections are nodes of the tree**, in their order. None is made up, but
some may be missing. -/
theorem reduceOption_sectionsFrom_sublist (current : Option Token) (children : List Token) :
    (sectionsFrom current children).reduceOption.Sublist
      (current.toList ++ contents children) := by
  induction children generalizing current with
  | nil => cases current <;> exact List.Sublist.refl _
  | cons child children ih =>
    cases h : child.isSeparator with
    | true =>
      rw [sectionsFrom_cons_of_separator h, contents_cons_of_separator h]
      cases current with
      | none => exact ih none
      | some part => exact (ih none).cons_cons part
    | false =>
      rw [sectionsFrom_cons_of_content h, contents_cons_of_content h]
      exact (ih (some child)).trans (List.sublist_append_right _ _)

/-- **The sections are all the nodes** that are no separators, if and only if
these alternate with separators. The induction follows the run of
`sectionsFrom`, with the node that waits to become a section (`current`) in
front of those that are still to come. -/
theorem reduceOption_sectionsFrom_eq_iff (hcurrent : ∀ part ∈ current, part.isSeparator = false) :
    (sectionsFrom current children).reduceOption = current.toList ++ contents children ↔
      Alternates (current.toList ++ children) := by
  induction children generalizing current with
  | nil => cases current <;> exact iff_of_true rfl (by simp [Alternates])
  | cons child children ih =>
    cases h : child.isSeparator with
    | true =>
      have hrest := @ih none nofun
      rw [sectionsFrom_cons_of_separator h, contents_cons_of_separator h]
      cases current with
      | none => exact hrest.trans (alternates_cons_of_separator h).symm
      | some part =>
        rw [List.reduceOption_cons_of_some, Option.toList_some, List.singleton_append,
          List.singleton_append, List.cons_inj_right, Alternates, List.isChain_cons_cons]
        exact hrest.trans ((alternates_cons_of_separator h).symm.trans
          (and_iff_right (Or.inr h)).symm)
    | false =>
      have hrest := @ih (some child) fun _ hpart => Option.mem_some.1 hpart ▸ h
      rw [sectionsFrom_cons_of_content h, contents_cons_of_content h]
      cases current with
      | none => exact hrest
      | some part =>
        -- the pending node is given up, so there are fewer sections than nodes
        refine iff_of_false (fun heq => ?_)
          (not_alternates_of_contents (hcurrent part rfl) h)
        have hless := (reduceOption_sectionsFrom_sublist (some child) children).length_le
        rw [heq] at hless
        simp at hless

/-- **Sections and separators have no more than the text** of the nodes. -/
theorem interleaved_sectionsFrom_sublist (current : Option Token) (children : List Token) :
    (interleaved (sectionsFrom current children) (separatorTexts children)).Sublist
      (sectionText current ++ joinedText children) := by
  induction children generalizing current with
  | nil => simp [sectionsFrom, separatorTexts, interleaved]
  | cons child children ih =>
    rw [joinedText_cons]
    cases h : child.isSeparator with
    | true =>
      rw [sectionsFrom_cons_of_separator h, separatorTexts_cons_of_separator h, interleaved_cons,
        ← List.append_assoc]
      exact (ih none).append_left _
    | false =>
      rw [sectionsFrom_cons_of_content h, separatorTexts_cons_of_content h]
      exact (ih (some child)).trans (List.sublist_append_right _ _)

/-- **Sections and separators have the text of the nodes**, none of which is
empty, if and only if these alternate with separators. A node that is missing
takes its text with it, so the two texts differ in length. -/
theorem interleaved_sectionsFrom_eq_iff (hcurrent : ∀ part ∈ current, part.isSeparator = false)
    (htext : ∀ part ∈ current, part.text ≠ []) (hchildren : ∀ child ∈ children, child.text ≠ []) :
    interleaved (sectionsFrom current children) (separatorTexts children)
        = sectionText current ++ joinedText children ↔
      Alternates (current.toList ++ children) := by
  induction children generalizing current with
  | nil =>
    refine iff_of_true ?_ (by cases current <;> simp [Alternates])
    simp [sectionsFrom, separatorTexts, interleaved, joinedText]
  | cons child children ih =>
    rw [List.forall_mem_cons] at hchildren
    rw [joinedText_cons]
    cases h : child.isSeparator with
    | true =>
      have hrest := @ih none nofun nofun hchildren.2
      rw [sectionsFrom_cons_of_separator h, separatorTexts_cons_of_separator h, interleaved_cons,
        List.append_assoc, List.append_cancel_left_eq, List.append_cancel_left_eq]
      refine hrest.trans ((alternates_cons_of_separator h).symm.trans ?_)
      cases current with
      | none => rfl
      | some part =>
        rw [Option.toList_some, List.singleton_append, Alternates, Alternates,
          List.isChain_cons_cons]
        exact (and_iff_right (Or.inr h)).symm
    | false =>
      have hrest := @ih (some child) (fun _ hpart => Option.mem_some.1 hpart ▸ h)
        (fun _ hpart => Option.mem_some.1 hpart ▸ hchildren.1) hchildren.2
      rw [sectionsFrom_cons_of_content h, separatorTexts_cons_of_content h]
      cases current with
      | none => exact hrest
      | some part =>
        -- the text of the pending node is missing
        refine iff_of_false (fun heq => ?_)
          (not_alternates_of_contents (hcurrent part rfl) h)
        have hless := (interleaved_sectionsFrom_sublist (some child) children).length_le
        have hsome := List.length_pos_iff.2 (htext part rfl)
        rw [heq] at hless
        simp only [sectionText, Option.map_some, Option.getD_some, List.length_append] at hless
        omega

/-! ## Patterns

Only the sections are looked at by `fault?`. What it says of a tree is
therefore said of all its nodes just when the nodes alternate with
separators. -/

/-- **A section that passes**: its kind is one that the pattern may have, and
nothing in it is out of place. -/
def Passes (kind : Kind) (part : Token) : Prop :=
  (∃ sectionKind, part.parentKind? = some sectionKind ∧ kind.allowsSection sectionKind = true) ∧
    intruderIn? kind part.children = none

theorem passes_of_sectionFault? {index : Nat} {isLast : Bool}
    (h : sectionFault? kind index isLast token = none) : Passes kind token := by
  unfold sectionFault? at h
  split at h
  · cases h
  · rename_i sectionKind hsection
    split at h
    · cases h
    · rename_i hallowed
      split at h
      · cases h
      · rw [Bool.not_eq_true', Bool.not_eq_false] at hallowed
        exact ⟨⟨sectionKind, hsection, hallowed⟩, (Option.or_eq_none_iff.1 h).2⟩

theorem passes_of_sectionsFault? {parts : List (Option Token)} {index : Nat}
    (h : sectionsFault? kind index parts = none) (hmem : some token ∈ parts) :
    Passes kind token := by
  induction parts generalizing index with
  | nil => cases hmem
  | cons part parts ih =>
    cases part with
    | none =>
      exact ih h ((List.mem_cons.1 hmem).resolve_left nofun)
    | some first =>
      rw [sectionsFault?, Option.or_eq_none_iff] at h
      rcases List.mem_cons.1 hmem with heq | hmem
      · exact Option.some.inj heq ▸ passes_of_sectionFault? h.1
      · exact ih h.2 hmem

/-- What a pattern is made of: any tree without a fault, just as it is. -/
theorem ofToken?_eq_ok_iff {tree : Token} {pattern : Pattern} :
    ofToken? kind tree = .ok pattern ↔ fault? kind tree = none ∧ pattern = ⟨kind, tree⟩ := by
  unfold ofToken?
  split
  · rename_i hfault
    rw [hfault]
    exact ⟨nofun, nofun⟩
  · rename_i hfault
    rw [and_iff_right hfault, Except.ok.injEq, eq_comm]

theorem sectionsFault?_eq_none {tree : Token} (h : fault? kind tree = none) :
    tree.parentKind? = some .expression ∧ sectionsFault? kind 0 tree.sections = none := by
  unfold fault? at h
  split at h
  · cases h
  · rename_i hexpression
    refine ⟨by simpa using hexpression, ?_⟩
    dsimp only at h
    split at h
    · split at h
      · cases h
      · exact Option.map_eq_none_iff.1 h
    · exact Option.map_eq_none_iff.1 h

/-- **What is checked of a pattern, and what is not.** The sections of a pattern
pass. They are all its nodes that are no separators, and have its text together
with these, if and only if the nodes alternate with separators. -/
theorem sections_of_ofToken? {tree : Token} {pattern : Pattern}
    (h : ofToken? kind tree = .ok pattern) :
    (∀ part, some part ∈ pattern.sections → Passes kind part) ∧
      (pattern.sections.reduceOption = contents tree.children ↔ Alternates tree.children) ∧
      (tree.Whole → (interleaved pattern.sections (separatorTexts tree.children) = pattern.text ↔
        Alternates tree.children)) := by
  obtain ⟨hfault, rfl⟩ := ofToken?_eq_ok_iff.1 h
  obtain ⟨hexpression, hsections⟩ := sectionsFault?_eq_none hfault
  refine ⟨fun part => passes_of_sectionsFault? hsections,
    reduceOption_sectionsFrom_eq_iff nofun, fun hwhole => ?_⟩
  cases hwhole with
  | leaf => cases hexpression
  | parent hchildren htext =>
    exact interleaved_sectionsFrom_eq_iff nofun nofun fun child hchild =>
      (hchildren child hchild).text_ne_nil

/-! ## What escapes -/

/-- A node in front of a section is no section. -/
theorem sectionsFrom_stowaway {stowaway part : Token} (front back : List Token)
    (hstowaway : stowaway.isSeparator = false) (hpart : part.isSeparator = false) :
    sectionsFrom current (front ++ stowaway :: part :: back)
      = sectionsFrom current (front ++ part :: back) := by
  induction front generalizing current with
  | nil =>
    rw [List.nil_append, List.nil_append, sectionsFrom_cons_of_content hstowaway,
      sectionsFrom_cons_of_content hpart, sectionsFrom_cons_of_content hpart]
  | cons child front ih =>
    cases h : child.isSeparator with
    | true => rw [List.cons_append, List.cons_append, sectionsFrom_cons_of_separator h,
        sectionsFrom_cons_of_separator h, ih]
    | false => rw [List.cons_append, List.cons_append, sectionsFrom_cons_of_content h,
        sectionsFrom_cons_of_content h, ih]

/-- **Anything may be put in front of a section**: the tree has the same faults
with it as without, as the check only looks at sections
(`sectionsFrom_stowaway`). -/
theorem fault?_stowaway {stowaway part : Token} (front back : List Token) (text text' : List Char)
    (hstowaway : stowaway.isSeparator = false) (hpart : part.isSeparator = false) :
    fault? kind (.parent .expression (front ++ stowaway :: part :: back) text)
      = fault? kind (.parent .expression (front ++ part :: back) text') := by
  unfold fault? Token.sections
  simp only [Token.children, sectionsFrom_stowaway front back hstowaway hpart]
  rfl

/-- **A node escapes** from a pattern when it is no separator and no section
either, and would not pass as one. -/
structure Escapes (child : Token) (pattern : Pattern) : Prop where
  mem : child ∈ pattern.token.children
  isContent : child.isSeparator = false
  notSection : some child ∉ pattern.sections
  notPassing : ¬ Passes pattern.kind child

/-- **What would not pass escapes in front of a section**, whatever the tree was
before, if only it was accepted. -/
theorem escapes_stowaway {stowaway part : Token} (front back : List Token) {text text' : List Char}
    (hstowaway : stowaway.isSeparator = false) (hpart : part.isSeparator = false)
    (hfault : fault? kind (.parent .expression (front ++ part :: back) text) = none)
    (hbad : ¬ Passes kind stowaway) :
    ∃ pattern, ofToken? kind (.parent .expression (front ++ stowaway :: part :: back) text')
      = .ok pattern ∧ Escapes stowaway pattern := by
  rw [← fault?_stowaway front back text' text hstowaway hpart] at hfault
  refine ⟨_, ofToken?_eq_ok_iff.2 ⟨hfault, rfl⟩, ?_⟩
  exact {
    mem := List.mem_append_right _ List.mem_cons_self
    isContent := hstowaway
    notSection := fun hmem => hbad (passes_of_sectionsFault? (sectionsFault?_eq_none hfault).2 hmem)
    notPassing := hbad }

/-- The letters of a year as a section for dates, which no pattern for numbers
may have. -/
def yearSection : Token :=
  .parent .date [.leaf (.year 4) "yyyy".toList] "yyyy".toList

def digitSection : Token :=
  .parent .number [.leaf .digitZero ['0']] ['0']

/-- A year in front of a digit. -/
def yearAndDigit : Token :=
  .parent .expression [yearSection, digitSection] "yyyy0".toList

theorem whole_yearAndDigit : yearAndDigit.Whole := by
  have hyear : yearSection.Whole :=
    @Whole.parent .date [.leaf (.year 4) "yyyy".toList]
      (List.forall_mem_singleton.2 (.leaf (by decide))) (by decide)
  have hdigit : digitSection.Whole :=
    @Whole.parent .number [.leaf .digitZero ['0']]
      (List.forall_mem_singleton.2 (.leaf (by decide))) (by decide)
  exact @Whole.parent .expression [yearSection, digitSection] (by simp [hyear, hdigit]) (by decide)

/-- Of a year in front of a digit the digit is checked, and the text does not
come from the sections. -/
theorem sections_yearAndDigit :
    let pattern : Pattern := ⟨.numberParse, yearAndDigit⟩
    ofToken? .numberParse yearAndDigit = .ok pattern ∧ yearAndDigit.Whole ∧
      (∀ part, some part ∈ pattern.sections → Passes .numberParse part) ∧
      (pattern.sections.reduceOption = contents yearAndDigit.children ↔
        Alternates yearAndDigit.children) ∧
      (interleaved pattern.sections (separatorTexts yearAndDigit.children) = pattern.text ↔
        Alternates yearAndDigit.children) :=
  have h := @sections_of_ofToken? .numberParse yearAndDigit ⟨.numberParse, yearAndDigit⟩ rfl
  ⟨rfl, whole_yearAndDigit, h.1, h.2.1, h.2.2 whole_yearAndDigit⟩

/-- **A year escapes in front of a digit**: a pattern that reads numbers has it
in its text, but not among its sections. -/
theorem year_escapes :
    ∃ pattern, ofToken? .numberParse yearAndDigit = .ok pattern ∧ Escapes yearSection pattern ∧
      interleaved pattern.sections (separatorTexts yearAndDigit.children) ≠ pattern.text := by
  have hbad : ¬ Passes .numberParse yearSection := by
    rintro ⟨⟨sectionKind, hsection, hallowed⟩, -⟩
    obtain rfl := Option.some.inj hsection
    cases hallowed
  have hfault : fault? .numberParse (.parent .expression ([] ++ [digitSection]) ['0']) = none := rfl
  obtain ⟨pattern, hpattern, hescapes⟩ := escapes_stowaway [] [] rfl rfl hfault hbad
  obtain ⟨-, rfl⟩ := ofToken?_eq_ok_iff.1 hpattern
  exact ⟨_, hpattern, hescapes, by decide⟩

end Worksheet.Pattern
