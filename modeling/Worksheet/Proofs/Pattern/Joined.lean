import Mathlib.Data.List.Forall2
import Worksheet.Proofs.Pattern.Sections
import Worksheet.Proofs.Pattern.Separated

/-!
# Patterns put together from sections

Texts that are one section each can be joined by semicolons. Each of them is
then read as it is read by itself, so that the pattern that comes of it has the
sections of the texts, in their order (`ofText?_joined`). A semicolon in
quotation marks or behind a backslash is part of a section like any other
character, so the texts cannot be got back by splitting at semicolons.

What a part is read as does not depend on what comes behind a semicolon that
ends its section (`Worksheet.Proofs.Pattern.Separated`). The sections are
therefore read one after the other from the last to the first
(`readSections_joined`), and since a pattern that reads has the same check for
each of its sections, what stands by itself (`Stands`) stands in the pattern as
well.
-/

namespace Worksheet.Pattern

open Ebnf Token

/-- The leaf of a semicolon, as it stands between the sections of a tree. -/
def Token.semicolon : Token :=
  .leaf .separator [';']

def joined (texts : List (List Char)) : List Char :=
  [';'].intercalate texts

theorem exists_joined_cons (text : List Char) (texts : List (List Char)) :
    ∃ more, joined (text :: texts) = text ++ more := by
  cases texts with
  | nil => exact ⟨[], rfl⟩
  | cons next texts => exact ⟨';' :: joined (next :: texts), rfl⟩

/-- **A text is one section** of a pattern for a purpose: it makes up a pattern
that has no other. The empty text is none, since it makes up no pattern. -/
def OneSection (kind : Kind) (text : List Char) : Prop :=
  ∃ pattern, ofText? kind text = .ok pattern ∧ pattern.sections.length = 1

variable {kind : Kind} {part : Part} {text rest : List Char} {token : Token} {tokens : List Token}
  {reach : Nat}

/-! ## Separators

Behind a section there is a semicolon or nothing. The separator is matched as a
part of the grammar like any other, and takes the semicolon alone. -/

/-- There is one section more than there are separators. -/
theorem length_sectionsFrom (current : Option Token) (children : List Token) :
    (sectionsFrom current children).length = (separatorTexts children).length + 1 := by
  induction children generalizing current with
  | nil => rfl
  | cons child children ih =>
    cases h : child.isSeparator with
    | true =>
      rw [sectionsFrom_cons_of_separator h, separatorTexts_cons_of_separator h, List.length_cons,
        List.length_cons, ih]
    | false => rw [sectionsFrom_cons_of_content h, separatorTexts_cons_of_content h, ih]

theorem matched_semicolon (more : List Char) :
    (evaluateRule standard (depthBound standard (';' :: more)) Part.separator.index
      (';' :: more)).matched = some ([semicolon], more) := by
  have hrule : standard.rules[21]? = some ⟨"EXPRESSION_SEPARATOR".toList, piece .separator⟩ := rfl
  have h := @CarriesOut.matched_rule standard _ (';' :: more) 21 _
    (carriesOut_standard (';' :: more)) hrule
  rw [evaluate] at h
  refine h.trans ?_
  have hbefore : Text.before (';' :: more) more = [';'] := Text.before_append [';'] more
  show some ([Token.leaf .separator (Text.before (';' :: more) more)], more) = _
  rw [hbefore]
  rfl

/-- What is matched as a separator separates: there is a leaf for it among the
nodes. -/
theorem exists_isSeparator_of_matched
    (h : (evaluateRule standard (depthBound standard text) Part.separator.index text).matched
      = some (tokens, rest)) : ∃ token ∈ tokens, token.isSeparator = true := by
  cases parses_of_evaluateRule standard _ _ _ _ _ h with
  | node hrule hshape =>
    obtain rfl := Option.some.inj hrule
    cases hshape
  | splice hrule hshape hbody =>
    obtain rfl := Option.some.inj hrule
    cases hbody with
    | terminal hscan =>
      refine ⟨_, List.mem_singleton_self _, ?_⟩
      cases text with
      | nil => cases hscan
      | cons c text =>
        simp only [Terminal.scan?, Terminal.single] at hscan
        split at hscan
        · rw [← (Prod.mk.inj (Option.some.inj hscan)).1]
          rfl
        · cases hscan

/-! ## Reading sections

A section in front of a semicolon is the one it is by itself
(`readPart_inFrontOf`). One part is tried for it and no other, since patterns
that read have sections of a single kind (`exists_alternative`). -/

theorem endsSection_of_readPart (hpart : part.isRow = true)
    (h : (readPart standard part text).1 = some (token, rest)) : endsSection text = false := by
  have hheads : ∀ head ∈ (front fronts (ruleAt part.index)).heads, head.char ≠ ';' := by
    cases part with
    | number | date | dateTime | time => decide
    | _ => cases hpart
  have hderives := (parses_of_evaluateRule standard _ _ _ _ _ (readPart_standard_iff.1 h)).derives
  obtain ⟨head, hmem, tail, rfl, -⟩ := hderives.begins fits_fronts (nullable_part part)
  exact beq_eq_false_iff_ne.2 (hheads head hmem)

/-- The first alternative that reaches the end of a section. -/
theorem readSection_cons_of_some (parts : List Part) (reach : Nat)
    (h : (readPart standard part text).1 = some (token, rest)) (hrest : endsSection rest = true) :
    ∃ reached, readSection standard text (part :: parts) reach = (some (token, rest), reached) := by
  refine ⟨min reach (readPart standard part text).2, ?_⟩
  generalize hread : readPart standard part text = read at h ⊢
  obtain ⟨taken, reached⟩ := read
  obtain rfl : taken = some (token, rest) := h
  rw [readSection, hread]
  exact if_pos hrest

theorem readSection_cons_of_none (parts : List Part) (reach : Nat)
    (h : (readPart standard part text).1 = none) :
    ∃ reached, readSection standard text (part :: parts) reach
      = readSection standard text parts reached := by
  refine ⟨min reach (readPart standard part text).2, ?_⟩
  generalize hread : readPart standard part text = read at h ⊢
  obtain ⟨taken, reached⟩ := read
  obtain rfl : taken = none := h
  rw [readSection, hread]

theorem readSections_last {alternatives : List Part} (whole : List Char)
    (hends : endsSection text = false)
    (h : ∃ reached, readSection standard text alternatives reach = (some (token, []), reached)) :
    readSections standard alternatives whole reach text = .ok [token] := by
  obtain ⟨reached, hsection⟩ := h
  rw [readSections, hends, hsection]
  rfl

/-- A section in front of a semicolon and more sections. -/
theorem readSections_cons (hpart : part.isRow = true) (whole : List Char) {more : List Char}
    (h : (readPart standard part text).1 = some (token, ';' :: more))
    (hmore : ∀ reach, readSections standard [part] whole reach more = .ok tokens) :
    readSections standard [part] whole reach text = .ok (token :: semicolon :: tokens) := by
  obtain ⟨reached, hsection⟩ := readSection_cons_of_some [] reach h rfl
  have hless : more.length < text.length := by
    obtain ⟨taken, rfl, -⟩ := spells_of_readPart hasText_standard h
    simp only [List.length_append, List.length_cons]
    omega
  rw [readSections, endsSection_of_readPart hpart h, hsection]
  simp only [Bool.false_eq_true, if_false, Part.ruleIndex?_standard, matched_semicolon,
    if_pos hless, hmore]
  rfl

theorem not_mem_of_separatorTexts (h : separatorTexts tokens = []) :
    ∀ token ∈ tokens, token.isSeparator = false := by
  rw [separatorTexts, List.map_eq_nil_iff, List.filter_eq_nil_iff] at h
  exact fun token hmem => Bool.eq_false_iff.2 (h token hmem)

/-- A text without separators is one section. Sections are read until a
separator does not follow, so a list of nodes without a separator has only one. -/
theorem readPart_of_readSections {whole : List Char} (htext : text ≠ [])
    (h : readSections standard [part] whole reach text = .ok tokens)
    (hnone : separatorTexts tokens = []) :
    ∃ token, tokens = [token] ∧ (readPart standard part text).1 = some (token, []) := by
  revert h
  fun_cases readSections standard [part] whole reach text with
  | case1 | case3 | case4 | case6 => exact nofun
  | case2 read taken reached hread =>
    intro h
    obtain rfl := Except.ok.inj h
    unfold read at hread
    split at hread
    · exact absurd (Prod.mk.inj (Option.some.inj (Prod.mk.inj hread).1)).2 htext
    · split at hread
      · rename_i token rest _ hsection
        obtain ⟨rfl, rfl⟩ := Prod.mk.inj (Option.some.inj (Prod.mk.inj hread).1)
        obtain ⟨other, hmem, hother⟩ := exists_of_readSection hsection
        exact ⟨token, rfl, List.mem_singleton.1 hmem ▸ hother⟩
      · cases (Prod.mk.inj hread).1
  | case5 read taken rest reached hrest hread index hindex outcome separators after hseparators =>
    intro h
    obtain rfl := Option.some.inj (Part.separator.ruleIndex?_standard.symm.trans hindex)
    obtain ⟨mark, hmem, hmark⟩ := exists_isSeparator_of_matched hseparators
    cases hmore : readSections standard [part] whole (min reached outcome.reach) after with
    | error e =>
      rw [hmore] at h
      cases h
    | ok more =>
      rw [hmore] at h
      obtain rfl := Except.ok.inj h
      -- a second section stands behind a separator, and there is none among the
      -- tokens
      have hclear := not_mem_of_separatorTexts hnone mark
        (List.mem_append_left _ (List.mem_append_right _ hmem))
      rw [hmark] at hclear
      cases hclear

/-- **Texts joined by semicolons are read as they are read by themselves.** The
induction is on the texts, with `readSections_cons` as its step. -/
theorem readSections_joined (hpart : part.isRow = true) (whole : List Char) (reach : Nat)
    {texts : List (List Char)} (hsome : texts ≠ [])
    (h : List.Forall₂ (fun text token => (readPart standard part text).1 = some (token, []))
      texts tokens) :
    readSections standard [part] whole reach (joined texts)
      = .ok (tokens.intersperse semicolon) := by
  induction h generalizing reach with
  | nil => exact absurd rfl hsome
  | @cons text token texts tokens htext hothers ih =>
    cases hothers with
    | nil =>
      have hjoined : joined [text] = text := List.append_nil text
      rw [hjoined]
      exact readSections_last whole (endsSection_of_readPart hpart htext)
        (readSection_cons_of_some [] reach htext rfl)
    | @cons next token' texts tokens hnext hothers =>
      have hjoined : joined (text :: next :: texts) = text ++ ';' :: joined (next :: texts) := rfl
      rw [hjoined]
      exact readSections_cons hpart whole (readPart_inFrontOf hpart htext _)
        fun reach => ih reach (List.cons_ne_nil _ _)

/-! ## Patterns

The tree of the joined text has the nodes of the sections with semicolons
between them. For patterns that read, a section is checked in the same way
wherever it stands (`sectionFault?_of_isParse`). -/

/-- The sections between semicolons are the nodes, each of them one. -/
theorem sectionsFrom_intersperse (hsome : tokens ≠ [])
    (h : ∀ token ∈ tokens, token.isSeparator = false) :
    sectionsFrom none (tokens.intersperse semicolon) = tokens.map some := by
  induction tokens with
  | nil => exact absurd rfl hsome
  | cons token tokens ih =>
    rw [List.forall_mem_cons] at h
    cases tokens with
    | nil =>
      show sectionsFrom none [token] = _
      rw [sectionsFrom_cons_of_content h.1]
      rfl
    | cons next tokens =>
      show sectionsFrom none (token :: semicolon :: (next :: tokens).intersperse semicolon) = _
      rw [sectionsFrom_cons_of_content h.1, sectionsFrom_cons_of_separator rfl,
        ih (List.cons_ne_nil _ _) h.2]
      rfl

/-- In a pattern that reads it makes no difference which section is checked.
This fails for number formats, where the fourth section is for texts. -/
theorem sectionFault?_of_isParse (h : kind.isParse = true) (index : Nat) (isLast : Bool) :
    sectionFault? kind index isLast token = sectionFault? kind 0 true token := by
  have hkind : (kind == .numberFormat) = false := by
    cases kind <;> first | rfl | cases h
  unfold sectionFault?
  simp only [hkind, Bool.false_and, Bool.false_eq_true, if_false]

theorem sectionsFault?_map_some (hparse : kind.isParse = true)
    (h : ∀ token ∈ tokens, sectionFault? kind 0 true token = none) (index : Nat) :
    sectionsFault? kind index (tokens.map some) = none := by
  induction tokens generalizing index with
  | nil => rfl
  | cons token tokens ih =>
    rw [List.forall_mem_cons] at h
    rw [List.map_cons, sectionsFault?, sectionFault?_of_isParse hparse, h.1, ih h.2]
    rfl

theorem fault?_of_isParse (hparse : kind.isParse = true)
    (hexpression : token.parentKind? = some .expression)
    (h : sectionsFault? kind 0 token.sections = none) : fault? kind token = none := by
  have hmax : kind.maxSections? = none := by
    cases kind <;> first | rfl | cases hparse
  unfold fault?
  rw [hexpression, hmax]
  simp only [bne_self_eq_false, Bool.false_eq_true, if_false, h, Option.map_none]

theorem exists_forall₂ {α β : Type} {relation : α → β → Prop} {list : List α}
    (h : ∀ a ∈ list, ∃ b, relation a b) : ∃ related, List.Forall₂ relation list related := by
  induction list with
  | nil => exact ⟨[], .nil⟩
  | cons a list ih =>
    obtain ⟨⟨b, hb⟩, hlist⟩ := List.forall_mem_cons.1 h
    obtain ⟨related, hrelated⟩ := ih hlist
    exact ⟨b :: related, .cons hb hrelated⟩

theorem forall_mem_of_forall₂ {α β : Type} {relation : α → β → Prop} {list : List α}
    {related : List β} (h : List.Forall₂ relation list related) :
    ∀ b ∈ related, ∃ a, relation a b := by
  induction h with
  | nil => exact nofun
  | cons hb _ ih => exact List.forall_mem_cons.2 ⟨⟨_, hb⟩, ih⟩

/-- What reads by sections of a single kind has one alternative for them. -/
theorem exists_alternative (hparse : kind.isParse = true) :
    ∃ part, part.isRow = true ∧ kind.alternatives = [part] := by
  cases kind <;> first | exact ⟨_, rfl, rfl⟩ | cases hparse

/-- **A section by itself**: it is read to the end of its text, and nothing in
it is out of place. -/
structure Stands (kind : Kind) (part : Part) (text : List Char) (token : Token) : Prop where
  read : (readPart standard part text).1 = some (token, [])
  faultless : sectionFault? kind 0 true token = none

theorem Stands.isSeparator_eq_false (h : Stands kind part text token) :
    token.isSeparator = false := by
  have hfaultless := h.faultless
  cases token with
  | leaf => cases hfaultless
  | parent => rfl

/-- **A text spells a pattern** when its sections are read to the end, and
nothing in them is out of place. -/
theorem ofText?_eq_ok_iff {pattern : Pattern} : ofText? kind text = .ok pattern ↔
    text ≠ [] ∧
      ∃ tokens, readSections standard kind.alternatives text text.length text = .ok tokens ∧
        ∃ tree, parent? .expression tokens = .ok tree ∧ fault? kind tree = none ∧
          pattern = ⟨kind, tree⟩ := by
  unfold ofText? wholePattern?
  by_cases htext : text = []
  · simp [htext]
  · rw [if_neg (mt List.isEmpty_iff.1 htext), and_iff_right htext]
    cases readSections standard kind.alternatives text text.length text with
    | error e => simp
    | ok tokens =>
      simp only [Except.ok.injEq, exists_eq_left']
      cases htree : parent? .expression tokens with
      | error e => simp
      | ok tree => simp [ofToken?_eq_ok_iff]

theorem Stands.text_ne_nil (h : Stands kind part text token) : text ≠ [] := by
  rintro rfl
  obtain ⟨taken, hnil, hspells⟩ := spells_of_readPart hasText_standard h.read
  obtain rfl := (List.append_eq_nil_iff.1 hnil.symm).1
  exact hspells.whole.text_ne_nil hspells.text_eq

/-- What a text that is one section comes to: a section that stands by itself,
and the pattern with that section. -/
theorem OneSection.exists_stands (hpart : kind.alternatives = [part])
    (h : OneSection kind text) :
    ∃ token, Stands kind part text token ∧
      ∃ pattern, ofText? kind text = .ok pattern ∧ pattern.sections = [some token] := by
  obtain ⟨pattern, hpattern, hlength⟩ := h
  obtain ⟨htext, tokens, hread, tree, htree, hfault, rfl⟩ := ofText?_eq_ok_iff.1 hpattern
  obtain ⟨-, rfl⟩ := parent?_eq_ok_iff.1 htree
  have hcount := (length_sectionsFrom none tokens).symm.trans hlength
  have hnone : separatorTexts tokens = [] := List.eq_nil_of_length_eq_zero (by omega)
  rw [hpart] at hread
  obtain ⟨token, rfl, htoken⟩ := readPart_of_readSections htext hread hnone
  have hsections : sectionsFrom none [token] = [some token] :=
    sectionsFrom_cons_of_content (not_mem_of_separatorTexts hnone token List.mem_cons_self)
  have hsound : sectionsFault? kind 0 (sectionsFrom none [token]) = none :=
    (sectionsFault?_eq_none hfault).2
  rw [hsections, sectionsFault?, Option.or_eq_none_iff] at hsound
  exact ⟨token, ⟨htoken, hsound.1⟩, _, hpattern, hsections⟩

/-- Sections that stand by themselves make up a pattern. -/
theorem exists_ofText?_joined (hparse : kind.isParse = true) (hpart : part.isRow = true)
    (halternatives : kind.alternatives = [part]) {texts : List (List Char)} (hsome : texts ≠ [])
    (h : List.Forall₂ (Stands kind part) texts tokens) :
    ∃ pattern, ofText? kind (joined texts) = .ok pattern ∧
      pattern.sections = tokens.map some := by
  have htokens : tokens ≠ [] := by
    rintro rfl
    exact hsome (List.forall₂_nil_right_iff.1 h)
  have hall := forall_mem_of_forall₂ h
  have hsections : sectionsFrom none (tokens.intersperse semicolon) = tokens.map some :=
    sectionsFrom_intersperse htokens fun token hmem =>
      let ⟨_, hstands⟩ := hall token hmem
      hstands.isSeparator_eq_false
  have hfaults : sectionsFault? kind 0 (tokens.map some) = none :=
    sectionsFault?_map_some hparse (fun token hmem =>
      let ⟨_, hstands⟩ := hall token hmem
      hstands.faultless) 0
  -- the texts, joined by semicolons, are read one after the other; the children
  -- are the tokens with the semicolons between them
  have hread := readSections_joined hpart (joined texts) (joined texts).length hsome
    (h.imp fun _ _ hstands => hstands.read)
  have hmake := makeUp_of_readSections hasText_standard hread
  have hjoined : joined texts ≠ [] := by
    cases h with
    | nil => exact absurd rfl hsome
    | cons hstands hothers =>
      obtain ⟨more, hmore⟩ := exists_joined_cons _ _
      exact fun hnil => hstands.text_ne_nil (List.append_eq_nil_iff.1 (hmore.symm.trans hnil)).1
  have htree : parent? .expression (tokens.intersperse semicolon)
      = .ok (.parent .expression (tokens.intersperse semicolon) (joined texts)) :=
    parent?_eq_ok_iff.2 ⟨hmake.joinedText_eq ▸ hjoined, by rw [hmake.joinedText_eq]⟩
  have hfault : fault? kind (.parent .expression (tokens.intersperse semicolon) (joined texts))
      = none :=
    fault?_of_isParse hparse rfl ((congrArg _ hsections).trans hfaults)
  refine ⟨_, ofText?_eq_ok_iff.2 ⟨hjoined, _, ?_, _, htree, hfault, rfl⟩, hsections⟩
  rw [halternatives, hread]

/-- **Texts that are one section each make up a pattern of their sections.** The
sections are the same nodes as those of the patterns of the texts. -/
theorem ofText?_joined (hparse : kind.isParse = true) {texts : List (List Char)}
    (hsome : texts ≠ []) (h : ∀ text ∈ texts, OneSection kind text) :
    ∃ tokens, List.Forall₂ (fun text token => ∃ pattern, ofText? kind text = .ok pattern ∧
        pattern.sections = [some token]) texts tokens ∧
      ∃ pattern, ofText? kind (joined texts) = .ok pattern ∧
        pattern.sections = tokens.map some := by
  obtain ⟨part, hpart, halternatives⟩ := exists_alternative hparse
  obtain ⟨tokens, htokens⟩ := exists_forall₂ fun text hmem =>
    (h text hmem).exists_stands halternatives
  exact ⟨tokens, htokens.imp fun _ _ => And.right,
    exists_ofText?_joined hparse hpart halternatives hsome (htokens.imp fun _ _ => And.left)⟩

end Worksheet.Pattern
