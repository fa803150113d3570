import Worksheet.Format.Formatter
import Worksheet.Proofs.Number.Rank
import Worksheet.Proofs.Pattern.Joined

/-!
# Which section shows a value

A number format has up to four sections. The last of them is for texts if it is
a text section or the fourth (`TakenOff`), and the sections that are left share
the numbers among them (`ChosenFor`). If none of these states a condition, their
number and the sign of a value say which one it is (`SignRow`): a single section
is for every number, a second one takes the negative numbers and a third one
zero. If any of them states a condition, then the first section that does not
fail is taken.

A format that is compiled from its pattern goes by this table
(`numberFormat_table`). What it chooses by is a condition for every section,
those that are not stated being made up from the place of the section, so the
point is that away from NaN exactly one of the conditions made up for two or
three sections holds (`exists_ordering`).
-/

namespace Worksheet.Format

open Pattern

/-! ## The table

What the section of a value depends on, said without the formatter: `TakenOff`
for the section for texts, `SignRow` for the places of the sections,
`ChosenFor` for both ways of choosing, and `ByTable` and `textShownBy?` for
what is shown. -/

/-- The condition a section states, if it does. An empty section states none. -/
def stated? (part : Option Token) : Option (Comparison × Float) :=
  part.bind condition?

/-- A section states a condition that does not hold of a number. A section
without a condition fails for no number, NaN included. -/
def FailsFor (part : Option Token) (v : Float) : Prop :=
  ∃ comparison target, stated? part = some (comparison, target) ∧
    comparison.test v target = false

/-- **The sections for numbers and the one for texts.**
`TakenOff trees parts text` says that of the sections `trees` those in `parts`
are for numbers and `text` is for texts. The last section is for texts if it is
a text section or the fourth; otherwise there is none for texts. -/
inductive TakenOff : List (Option Token) → List (Option Token) → Option (Option Token) → Prop
  | textSection {tree : Token} (parts : List (Option Token)) (h : tree.parentKind? = some .text) :
      TakenOff (parts ++ [some tree]) parts (some (some tree))
  | fourth (first second third last : Option Token) :
      TakenOff [first, second, third, last] [first, second, third] (some last)
  | nothing {parts : List (Option Token)} (hlength : parts.length ≠ Kind.numberSections)
      (hlast : ∀ tree, parts.getLast? = some (some tree) → tree.parentKind? ≠ some .text) :
      TakenOff parts parts none

/-- **The rows of the table by sign**: which of up to three sections without
conditions is for a number, and the number it receives. A section for negative
numbers receives the number without its sign, so that it has to write a minus
itself if it wants one. -/
inductive SignRow : List (Option Token) → Float → Option Token → Float → Prop
  | only (part : Option Token) (v : Float) : SignRow [part] v part v
  | fromZero (first second : Option Token) {v : Float} (h : 0 ≤ v) :
      SignRow [first, second] v first v
  | belowZero (first second : Option Token) {v : Float} (h : v < 0) :
      SignRow [first, second] v second v.abs
  | positive (first second third : Option Token) {v : Float} (h : 0 < v) :
      SignRow [first, second, third] v first v
  | negative (first second third : Option Token) {v : Float} (h : v < 0) :
      SignRow [first, second, third] v second v.abs
  | zero (first second third : Option Token) {v : Float} (h : (v == 0) = true) :
      SignRow [first, second, third] v third v

/-- **A section is for a number**, and receives it in this form: by its sign if
no section states a condition, and otherwise as the first one that does not fail
for it. -/
inductive ChosenFor (parts : List (Option Token)) (v : Float) : Option Token → Float → Prop
  | bySign {part : Option Token} {x : Float} (hnone : ∀ other ∈ parts, stated? other = none)
      (hrow : SignRow parts v part x) : ChosenFor parts v part x
  | byCondition {part : Option Token} {front back : List (Option Token)}
      (hsome : ∃ other ∈ parts, stated? other ≠ none) (hparts : parts = front ++ part :: back)
      (hfront : ∀ other ∈ front, FailsFor other v) (hpart : ¬ FailsFor part v) :
      ChosenFor parts v part v

/-- A number as a section shows it. An empty section shows the empty text, and
has no colour. -/
def shownBy (signs : NumberSigns) (x : Float) : Option Token → FormattedText
  | some tree => ⟨(Body.ofTree? (some tree)).format signs x, colour? tree⟩
  | none => ⟨[], none⟩

/-- **A text as a pattern with so many sections shows it**: by its text section,
as nothing if the section is empty, and as it is if there are other sections but
none for texts. -/
def textShownBy? (count : ℕ) (text : List Char) : Option (Option Token) → Option FormattedText
  | some (some tree) => some ((TextSection.ofTree? (some tree)).format text)
  | some none => some ⟨[], none⟩
  | none => if 1 < count then some ⟨text, none⟩ else none

/-- **What is shown of a number goes by the table.** It is shown by the section
that is chosen for it, and not shown exactly if each section states a condition
and none of them holds, as with no section at all. -/
structure ByTable (signs : NumberSigns) (parts : List (Option Token)) (v : Float)
    (answer : Option FormattedText) : Prop where
  some_iff (shown : FormattedText) : answer = some shown ↔
    ∃ part x, ChosenFor parts v part x ∧ shown = shownBy signs x part
  none_iff : answer = none ↔ ∀ part ∈ parts, FailsFor part v

variable {parts trees : List (Option Token)} {part : Option Token} {v x : Float}

/-! ## The section for texts

The formatter takes the section for texts off the end before it looks at the
others. That is the first row of the table, and the only one that looks at a
text section. -/

theorem isText_iff {last : Option Token} : NumberFormat.isText last = true ↔
    ∃ tree, last = some tree ∧ tree.parentKind? = some .text := by
  cases last with
  | none => exact ⟨fun h => (by cases h), fun ⟨_, h, _⟩ => (by cases h)⟩
  | some tree =>
    rw [NumberFormat.isText, Option.any_some, beq_iff_eq]
    exact ⟨fun h => ⟨tree, rfl, h⟩, fun ⟨_, heq, h⟩ => Option.some.inj heq ▸ h⟩

theorem format_ofTree? (count : ℕ) (last : Option Token) (text : List Char) :
    some ((TextSection.ofTree? last).format text) = textShownBy? count text (some last) := by
  cases last <;> rfl

theorem format_plain (text : List Char) : TextSection.plain.format text = ⟨text, none⟩ :=
  congrArg (FormattedText.mk · none) (List.append_nil text)

/-- **The section for texts is taken off** by `NumberFormat.splitText` as
`TakenOff` says, and the text format that is made of it is the one of the table.
The cases are those of `splitText`: a text section, the fourth section, and
neither. -/
theorem takenOff_splitText (trees : List (Option Token)) : ∃ text,
    TakenOff trees (NumberFormat.splitText trees).1 text ∧
      ∀ s, (NumberFormat.splitText trees).2.map (·.format s)
        = textShownBy? trees.length s text := by
  unfold NumberFormat.splitText
  dsimp only
  split
  · rename_i hsplit
    refine ⟨some trees.getLast?.join, ?_, format_ofTree? trees.length _⟩
    rw [Bool.or_eq_true, beq_iff_eq] at hsplit
    rcases hsplit with htext | hlength
    · obtain ⟨tree, hlast, hkind⟩ := isText_iff.1 htext
      obtain ⟨front, rfl⟩ := List.getLast?_eq_some_iff.1 (Option.join_eq_some_iff.1 hlast)
      rw [hlast, List.dropLast_concat]
      exact .textSection front hkind
    · match trees, hlength with
      | [first, second, third, last], _ => exact .fourth first second third last
  · rename_i hsplit
    rw [Bool.or_eq_true, beq_iff_eq, not_or] at hsplit
    refine ⟨none, .nothing hsplit.2 fun tree hlast hkind => hsplit.1 ?_, fun s => ?_⟩
    · exact isText_iff.2 ⟨tree, Option.join_eq_some_iff.2 hlast, hkind⟩
    · rw [textShownBy?]
      split
      · exact congrArg some (format_plain s)
      · rfl

/-- No more than three sections are left for numbers: the fourth is always taken
off. -/
theorem TakenOff.length_le {text : Option (Option Token)} (h : TakenOff trees parts text)
    (hlength : trees.length ≤ Kind.numberSections) : parts.length ≤ 3 := by
  cases h with
  | textSection _ hkind =>
    rw [List.length_append, List.length_singleton] at hlength
    exact Nat.le_of_succ_le_succ hlength
  | fourth => exact Nat.le_refl 3
  | nothing hother => exact Nat.le_of_lt_succ (Nat.lt_of_le_of_ne hlength hother)

/-! ## The section for a number

Each section is compiled with a condition: the one it states, or one made up
from its place. With conditions stated the first one that holds is taken, in
the order of the pattern. -/

/-- What a section shows of a number, by whether it is shown without its sign. -/
def Section.shown (part : Section) (signs : NumberSigns) (v : Float) : FormattedText :=
  ⟨part.body.format signs (if part.unsigned then v.abs else v), part.colour⟩

theorem sectionAt_stated (count index : ℕ) (part : Option Token) :
    sectionAt count true index part = sectionAt 0 true 0 part := by
  unfold sectionAt
  cases part.bind condition? <;> rfl

/-- Without conditions a section is chosen by its place, under the
`impliedCondition` of that place. -/
theorem sectionAt_implied (count index : ℕ) (h : stated? part = none) :
    sectionAt count false index part
      = ⟨(impliedCondition count index).1, (impliedCondition count index).2, part.bind colour?,
          .ofTree? part⟩ := by
  rw [stated?] at h
  rw [sectionAt, h]
  rfl

theorem shownBy_eq (signs : NumberSigns) (x : Float) (part : Option Token) :
    shownBy signs x part = ⟨(Body.ofTree? part).format signs x, part.bind colour?⟩ := by
  cases part <;> rfl

/-- The condition that is compiled from a section holds just of the numbers that
the section does not fail for. -/
theorem holds_sectionAt_stated :
    (sectionAt 0 true 0 part).condition.holds v = true ↔ ¬ FailsFor part v := by
  unfold sectionAt FailsFor stated?
  cases part.bind condition? with
  | none => exact iff_of_true rfl (by simp)
  | some stated =>
    obtain ⟨comparison, target⟩ := stated
    rw [← Bool.not_eq_false]
    refine not_congr ⟨fun h => ⟨comparison, target, rfl, h⟩, ?_⟩
    rintro ⟨comparison', target', heq, h⟩
    obtain ⟨rfl, rfl⟩ := Prod.mk.inj (Option.some.inj heq)
    exact h

theorem show_sectionAt_stated (signs : NumberSigns) (v : Float) (part : Option Token) :
    (sectionAt 0 true 0 part).shown signs v = shownBy signs v part := by
  rw [shownBy_eq]
  unfold sectionAt Section.shown
  cases part.bind condition? <;> rfl

/-- The sections of a format for numbers. -/
def sectionsOf (parts : List (Option Token)) : List Section :=
  parts.mapIdx (sectionAt parts.length (parts.any fun part => (part.bind condition?).isSome))

/-- A number as the first of some sections that is there for it shows it: the
search that `NumberFormat.formatNumber?` makes, said apart from the format so
that it can be split by sections. -/
def firstShown? (signs : NumberSigns) (v : Float) (sections : List Section) :
    Option FormattedText :=
  (sections.find? fun part => part.condition.holds v).map (·.shown signs v)

variable {signs : NumberSigns}

/-- **With conditions stated**, the first section that does not fail for a
number shows it. If there is none, then every section states a condition, since
one without would not have failed. -/
theorem byTable_stated (hsome : ∃ other ∈ parts, stated? other ≠ none) :
    ByTable signs parts v (firstShown? signs v (sectionsOf parts)) := by
  -- one stated condition turns the implied ones off for every part
  have hany : (parts.any fun part => (part.bind condition?).isSome) = true := by
    obtain ⟨other, hmem, hother⟩ := hsome
    exact List.any_eq_true.2 ⟨other, hmem, Option.isSome_iff_ne_none.2 hother⟩
  have hsections : sectionsOf parts = parts.map (sectionAt 0 true 0) := by
    refine List.ext_getElem? fun index => ?_
    rw [sectionsOf, hany, List.getElem?_mapIdx, List.getElem?_map]
    exact congrArg (Option.map · parts[index]?) (funext fun part => sectionAt_stated _ _ part)
  rw [firstShown?, hsections, List.find?_map, Option.map_map]
  refine ⟨fun shown => Option.map_eq_some_iff.trans ⟨?_, ?_⟩, Option.map_eq_none_iff.trans ?_⟩
  · rintro ⟨part, hpart, rfl⟩
    obtain ⟨hholds, front, back, rfl, hfront⟩ := List.find?_eq_some_iff_append.1 hpart
    refine ⟨part, v, .byCondition hsome rfl (fun other hother => ?_)
      (holds_sectionAt_stated.1 hholds), show_sectionAt_stated signs v part⟩
    have hfails := hfront other hother
    rw [Function.comp_apply, Bool.not_eq_true', ← Bool.not_eq_true] at hfails
    exact not_not.1 (mt holds_sectionAt_stated.2 hfails)
  · rintro ⟨part, x, hchosen, rfl⟩
    cases hchosen with
    | bySign hnone =>
      obtain ⟨other, hmem, hother⟩ := hsome
      exact absurd (hnone other hmem) hother
    | byCondition _ hparts hfront hpart =>
      refine ⟨part, List.find?_eq_some_iff_append.2
        ⟨holds_sectionAt_stated.2 hpart, _, _, hparts, fun other hother => ?_⟩,
        show_sectionAt_stated signs v part⟩
      rw [Function.comp_apply, Bool.not_eq_true', ← Bool.not_eq_true]
      exact mt holds_sectionAt_stated.1 (not_not.2 (hfront other hother))
  · rw [List.find?_eq_none]
    exact forall₂_congr fun part hpart => (not_congr holds_sectionAt_stated).trans not_not

/-! ## Without conditions

The conditions that are made up are by sign. There is a row for each sign and
no two rows overlap, away from NaN, so the search for the first condition that
holds and the table come to the same section. -/

/-- **The sections for signs do not overlap**, away from NaN. NaN is neither
below zero, nor zero, nor above it, and is the reason for the hypothesis. -/
theorem SignRow.unique {part' : Option Token} {x' : Float} (hnan : v.isNaN = false)
    (h : SignRow parts v part x) (h' : SignRow parts v part' x') : part = part' ∧ x = x' := by
  -- the rows of a table ask for the order of the value and zero, and it has
  -- only one
  obtain ⟨order, hlt, heq, hgt, hle⟩ :=
    Number.exists_ordering hnan (show (0 : Float).isNaN = false by decide)
  cases h with
  | only => cases h'; exact ⟨rfl, rfl⟩
  | fromZero _ _ hsign =>
    cases h' with
    | fromZero => exact ⟨rfl, rfl⟩
    | belowZero _ _ hother => exact absurd (hlt.1 hother) (hle.1 hsign)
  | belowZero _ _ hsign =>
    cases h' with
    | fromZero _ _ hother => exact absurd (hlt.1 hsign) (hle.1 hother)
    | belowZero => exact ⟨rfl, rfl⟩
  | positive _ _ _ hsign =>
    rw [hgt] at hsign
    subst hsign
    cases h' with
    | positive => exact ⟨rfl, rfl⟩
    | negative _ _ _ hother => cases hlt.1 hother
    | zero _ _ _ hother => cases heq.1 hother
  | negative _ _ _ hsign =>
    rw [hlt] at hsign
    subst hsign
    cases h' with
    | positive _ _ _ hother => cases hgt.1 hother
    | negative => exact ⟨rfl, rfl⟩
    | zero _ _ _ hother => cases heq.1 hother
  | zero _ _ _ hsign =>
    rw [heq] at hsign
    subst hsign
    cases h' with
    | positive _ _ _ hother => cases hgt.1 hother
    | negative _ _ _ hother => cases hlt.1 hother
    | zero => exact ⟨rfl, rfl⟩

theorem firstShown?_cons_of_holds {first : Section} (h : first.condition.holds v = true)
    (sections : List Section) :
    firstShown? signs v (first :: sections) = some (first.shown signs v) :=
  congrArg (Option.map fun part : Section => part.shown signs v)
    (List.find?_cons_of_pos (p := fun part : Section => part.condition.holds v) h)

theorem firstShown?_cons_of_not_holds {first : Section} (h : ¬ first.condition.holds v = true)
    (sections : List Section) :
    firstShown? signs v (first :: sections) = firstShown? signs v sections :=
  congrArg (Option.map fun part : Section => part.shown signs v)
    (List.find?_cons_of_neg (p := fun part : Section => part.condition.holds v) h)

theorem sectionsOf_eq_mapIdx (hnone : ∀ other ∈ parts, stated? other = none) :
    sectionsOf parts = parts.mapIdx fun index part =>
      ⟨(impliedCondition parts.length index).1, (impliedCondition parts.length index).2,
        part.bind colour?, .ofTree? part⟩ := by
  have hany : (parts.any fun part => (part.bind condition?).isSome) = false :=
    List.any_eq_false.2 fun other hmem => by
      rw [← stated?, hnone other hmem]
      exact Bool.false_ne_true
  rw [sectionsOf, hany]
  exact List.mapIdx_eq_mapIdx_iff.2 fun index hindex =>
    sectionAt_implied _ _ (hnone _ (List.getElem_mem hindex))

/-- **There is a section for every sign**, and it shows the number. This is the
heart of the table: the conditions that are made up from the places are gone
through for one, two and three sections, and by trichotomy of the doubles that
are not NaN (`exists_ordering`) the first of them that holds is the one of the
row. -/
theorem exists_signRow (hnan : v.isNaN = false) (hsome : parts ≠ []) (hlength : parts.length ≤ 3)
    (hnone : ∀ other ∈ parts, stated? other = none) :
    ∃ part x, SignRow parts v part x ∧
      firstShown? signs v (sectionsOf parts) = some (shownBy signs x part) := by
  obtain ⟨order, hlt, heq, hgt, hle⟩ :=
    Number.exists_ordering hnan (show (0 : Float).isNaN = false by decide)
  have hfrom : (Condition.compares .greaterEqual 0).holds v = true ↔ 0 ≤ v := decide_eq_true_iff
  have hbelow : (Condition.compares .less 0).holds v = true ↔ v < 0 := decide_eq_true_iff
  have habove : (Condition.compares .greater 0).holds v = true ↔ 0 < v := decide_eq_true_iff
  have hzero : (Condition.compares .equal 0).holds v = true ↔ (v == 0) = true := Iff.rfl
  rw [sectionsOf_eq_mapIdx hnone]
  simp only [shownBy_eq]
  match parts, hlength with
  | [], _ => exact absurd rfl hsome
  | [part], _ => exact ⟨part, v, .only part v, firstShown?_cons_of_holds rfl []⟩
  | [first, second], _ =>
    -- of two parts the second takes the negative values, printed without their
    -- sign
    by_cases hsign : 0 ≤ v
    · exact ⟨first, v, .fromZero first second hsign,
        firstShown?_cons_of_holds (hfrom.2 hsign) _⟩
    · have hnegative : v < 0 := hlt.2 (not_not.1 (mt hle.2 hsign))
      refine ⟨second, v.abs, .belowZero first second hnegative, ?_⟩
      exact (firstShown?_cons_of_not_holds (mt hfrom.1 hsign) _).trans
        (firstShown?_cons_of_holds (hbelow.2 hnegative) [])
  | [first, second, third], _ =>
    cases order with
    | gt =>
      have hsign : 0 < v := hgt.2 rfl
      exact ⟨first, v, .positive first second third hsign,
        firstShown?_cons_of_holds (habove.2 hsign) _⟩
    | lt =>
      have hsign : v < 0 := hlt.2 rfl
      refine ⟨second, v.abs, .negative first second third hsign, ?_⟩
      exact (firstShown?_cons_of_not_holds (mt (hgt.1 ∘ habove.1) nofun) _).trans
        (firstShown?_cons_of_holds (hbelow.2 hsign) _)
    | eq =>
      have hsign : (v == 0) = true := heq.2 rfl
      refine ⟨third, v, .zero first second third hsign, ?_⟩
      exact (firstShown?_cons_of_not_holds (mt (hgt.1 ∘ habove.1) nofun) _).trans
        ((firstShown?_cons_of_not_holds (mt (hlt.1 ∘ hbelow.1) nofun) _).trans
          (firstShown?_cons_of_holds (hzero.2 hsign) []))

/-- **Without conditions stated**, the row for the sign of a number shows it,
and no number is left out if there is a section at all. The row is there by
`exists_signRow` and the only one by `SignRow.unique`. -/
theorem byTable_implied (hnan : v.isNaN = false) (hlength : parts.length ≤ 3)
    (hnone : ∀ other ∈ parts, stated? other = none) :
    ByTable signs parts v (firstShown? signs v (sectionsOf parts)) := by
  have hrow : ∀ {part : Option Token} {x : Float}, ChosenFor parts v part x →
      SignRow parts v part x := by
    intro part x hchosen
    cases hchosen with
    | bySign _ hrow => exact hrow
    | byCondition hsome =>
      obtain ⟨other, hmem, hother⟩ := hsome
      exact absurd (hnone other hmem) hother
  -- without a condition of its own no part can fail, so the table never comes
  -- out empty
  have hfails : ∀ part ∈ parts, ¬ FailsFor part v := by
    rintro part hmem ⟨comparison, target, hstated, -⟩
    rw [hnone part hmem] at hstated
    cases hstated
  rcases eq_or_ne parts [] with rfl | hsome
  · refine ⟨fun shown => ⟨nofun, ?_⟩, iff_of_true rfl nofun⟩
    rintro ⟨part, x, hchosen, -⟩
    cases hrow hchosen
  · obtain ⟨part, x, hpart, hshown⟩ := @exists_signRow _ _ signs hnan hsome hlength hnone
    rw [hshown]
    refine ⟨fun shown => ⟨?_, ?_⟩, iff_of_false nofun fun hall => ?_⟩
    · rintro ⟨⟩
      exact ⟨part, x, .bySign hnone hpart, rfl⟩
    · rintro ⟨part', x', hchosen, rfl⟩
      obtain ⟨rfl, rfl⟩ := hpart.unique hnan (hrow hchosen)
      rfl
    · obtain ⟨other, hmem⟩ := List.exists_mem_of_ne_nil parts hsome
      exact hfails other hmem (hall other hmem)

/-! ## Number formats -/

theorem length_sections_le {tree : Token} (h : fault? .numberFormat tree = none) :
    tree.sections.length ≤ Kind.numberSections := by
  unfold fault? at h
  split at h
  · cases h
  · dsimp only [Kind.maxSections?] at h
    split at h
    · cases h
    · exact Nat.le_of_not_lt ‹_›

/-- The formatter of a pattern for numbers is the format that is compiled from
its sections, of which there are at most `Kind.numberSections` as its tree has
been checked. -/
theorem ofPattern?_eq {tree : Token} {pattern : Pattern}
    (h : ofToken? .numberFormat tree = .ok pattern) :
    Formatter.ofPattern? pattern = .ok (.number (.ofTrees pattern.sections)) ∧
      pattern.sections.length ≤ Kind.numberSections := by
  obtain ⟨hfault, rfl⟩ := ofToken?_eq_ok_iff.1 h
  have hlength := length_sections_le hfault
  exact ⟨if_neg (Nat.not_lt.2 hlength), hlength⟩

theorem format?_of_numberOf? {value : Value} (h : Formatter.numberOf? value = some v)
    (format : NumberFormat) (locale : Locale) :
    (Formatter.number format).format? locale value = format.formatNumber? locale.numbers v := by
  cases value with
  | text => cases h
  | _ => exact congrArg (Option.bind · (format.formatNumber? locale.numbers)) h

/-- A text is shown if there is a section for texts, or more than one section.
With a single section that is not for texts the value is left to whoever asked
for it. -/
theorem isSome_textShownBy? {text : Option (Option Token)} (h : TakenOff trees parts text)
    (s : List Char) : (textShownBy? trees.length s text).isSome = true ↔
      1 < trees.length ∨
        ∃ last, trees.getLast? = some (some last) ∧ last.parentKind? = some .text := by
  cases h with
  | @textSection tree _ hkind =>
    exact iff_of_true rfl (.inr ⟨tree, List.getLast?_concat, hkind⟩)
  | fourth first second third last =>
    exact iff_of_true (by cases last <;> rfl) (.inl (show 1 < 4 by decide))
  | nothing _ hlast =>
    have hnone : ¬ ∃ last, parts.getLast? = some (some last) ∧ last.parentKind? = some .text :=
      fun ⟨last, heq, hkind⟩ => hlast last heq hkind
    rw [or_iff_left hnone, textShownBy?]
    split
    · exact iff_of_true rfl ‹_›
    · exact iff_of_false nofun ‹_›

/-- **A number format goes by the table.** It is made of the sections of its
pattern, with the one for texts taken off (`TakenOff`), of which there are three
at most. What it shows of a number that is not NaN goes by the table
(`ByTable`). A text is shown exactly if there is more than one section or the
last one is a text section, and then as the section for texts shows it
(`textShownBy?`). -/
theorem numberFormat_table {tree : Token} {pattern : Pattern}
    (h : ofToken? .numberFormat tree = .ok pattern) :
    ∃ formatter parts text, Formatter.ofPattern? pattern = .ok formatter ∧
      TakenOff pattern.sections parts text ∧ parts.length ≤ 3 ∧
      (∀ locale value v, Formatter.numberOf? value = some v → v.isNaN = false →
        ByTable locale.numbers parts v (formatter.format? locale value)) ∧
      ∀ locale s,
        formatter.format? locale (.text s) = textShownBy? pattern.sections.length s text ∧
        ((formatter.format? locale (.text s)).isSome = true ↔
          1 < pattern.sections.length ∨
            ∃ last, pattern.sections.getLast? = some (some last) ∧
              last.parentKind? = some .text) := by
  obtain ⟨hformatter, hlength⟩ := ofPattern?_eq h
  obtain ⟨text, htaken, htext⟩ := takenOff_splitText pattern.sections
  have hleft := htaken.length_le hlength
  refine ⟨_, _, text, hformatter, htaken, hleft, fun locale value v hvalue hnan => ?_,
    fun locale s => ?_⟩
  · rw [format?_of_numberOf? hvalue]
    by_cases hnone : ∀ other ∈ (NumberFormat.splitText pattern.sections).1, stated? other = none
    · exact byTable_implied hnan hleft hnone
    · refine byTable_stated ?_
      obtain ⟨other, hother⟩ := not_forall.1 hnone
      exact ⟨other, Classical.not_imp.1 hother⟩
  · have hshown : (Formatter.number (.ofTrees pattern.sections)).format? locale (.text s)
        = textShownBy? pattern.sections.length s text := htext s
    rw [hshown]
    exact ⟨rfl, isSome_textShownBy? htaken s⟩

/-- Two digits, the second of which is for negative numbers. -/
def digitsBySign : Token :=
  .parent .expression [digitSection, .semicolon, digitSection] "0;0".toList

/-- The second section shows a negative number without its sign, and a text is
shown as it is. -/
theorem numberFormat_digitsBySign :
    ∃ formatter, Formatter.ofPattern? ⟨.numberFormat, digitsBySign⟩ = .ok formatter ∧
      ∀ locale, formatter.format? locale (.number (-2))
          = some (shownBy locale.numbers (-2 : Float).abs (some digitSection)) ∧
        formatter.format? locale (.text ['a']) = some ⟨['a'], none⟩ := by
  have hpattern : ofToken? .numberFormat digitsBySign = .ok ⟨.numberFormat, digitsBySign⟩ := rfl
  obtain ⟨formatter, parts, text, hformatter, htaken, -, hnumbers, htexts⟩ :=
    numberFormat_table hpattern
  have hsections : (⟨.numberFormat, digitsBySign⟩ : Pattern).sections
      = [some digitSection, some digitSection] := rfl
  rw [hsections] at htaken htexts
  -- neither section is a text section
  obtain ⟨rfl, rfl⟩ : parts = [some digitSection, some digitSection] ∧ text = none := by
    generalize hall : [some digitSection, some digitSection] = sections at htaken
    cases htaken with
    | textSection front hkind =>
      have hlast := congrArg List.getLast? hall
      rw [List.getLast?_concat] at hlast
      obtain rfl := Option.some.inj (Option.some.inj hlast)
      cases hkind
    | fourth => cases hall
    | nothing => exact ⟨rfl, rfl⟩
  refine ⟨formatter, hformatter, fun locale => ⟨?_, (htexts locale ['a']).1⟩⟩
  refine ((hnumbers locale (.number (-2)) (-2) rfl (by decide)).some_iff _).2 ?_
  refine ⟨_, _, .bySign ?_ (.belowZero _ _ (by decide)), rfl⟩
  exact List.forall_mem_cons.2 ⟨rfl, List.forall_mem_singleton.2 rfl⟩

end Worksheet.Format
