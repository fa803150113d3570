import Worksheet.Convert
import Worksheet.Proofs.Pattern.Joined

/-!
# Sections of a reader are alternatives

A reader tries its sections in turn, each from the same place and with nothing
collected. So what it reads is what the first of its sections reads that reads
anything, and each section reads what it would read if it were the whole pattern
(`reads_joined`): the pattern can be cut at its semicolons, or put together at
them.
-/

namespace Worksheet.Read

open Pattern Converter

/-- The number at a byte offset of a text, and the offset behind it. The text is
cut there once and read from its front, with `readFront?`. -/
def NumberReader.readAt? (reader : NumberReader) (signs : NumberSigns) (mode : Mode)
    (whole : List Char) (start : Nat) : Option (Float × Nat) :=
  (Text.fromByte? start whole).bind fun input =>
    (reader.readFront? signs mode input).map fun (value, rest) =>
      (value, Text.position whole rest)

def NumberReader.ofSection (token : Token) : NumberReader :=
  ⟨[.ofLeaves token.leaves]⟩

/-- The reader for dates or times with a single section. Like
`NumberReader.ofSection` it is what a section would be as a pattern of its own. -/
def MomentReader.ofSection (kind : MomentKind) (token : Token) : MomentReader :=
  ⟨kind, [Component.ofLeaves (kind = .time) (contentLeaves token)]⟩

variable {kind : Pattern.Kind} {text : List Char} {tokens : List Token} {pattern : Pattern}

theorem filterMap_map_some {α β : Type} (f : α → β) (list : List α) :
    ((list.map some).filterMap fun part => part.map f) = list.map f := by
  rw [List.filterMap_map, ← List.filterMap_eq_map]
  rfl

theorem kind_of_ofText? (h : Pattern.ofText? kind text = .ok pattern) : pattern.kind = kind := by
  obtain ⟨-, tokens, -, tree, -, -, rfl⟩ := ofText?_eq_ok_iff.1 h
  rfl

/-- The reader for numbers that a text with some sections spells: one candidate
for each of them, compiled from its leaves. -/
theorem numberReaderOf?_of_sections (h : Pattern.ofText? .numberParse text = .ok pattern)
    (hsections : pattern.sections = tokens.map some) :
    numberReaderOf? text = .ok ⟨tokens.map fun token => .ofLeaves token.leaves⟩ := by
  have hreader : NumberReader.ofPattern? pattern
      = .ok ⟨tokens.map fun token => .ofLeaves token.leaves⟩ := by
    rw [NumberReader.ofPattern?, if_pos (kind_of_ofText? h), hsections, filterMap_map_some]
  rw [numberReaderOf?, h]
  exact hreader

theorem momentReaderOf?_of_sections {read : MomentKind}
    (hkind : MomentReader.kindOf? kind = some read) (h : Pattern.ofText? kind text = .ok pattern)
    (hsections : pattern.sections = tokens.map some) :
    momentReaderOf? kind text = .ok ⟨read, tokens.map fun token =>
      Component.ofLeaves (read = .time) (contentLeaves token)⟩ := by
  have hreader : MomentReader.ofPattern? pattern = .ok ⟨read, tokens.map fun token =>
      Component.ofLeaves (read = .time) (contentLeaves token)⟩ := by
    rw [MomentReader.ofPattern?, kind_of_ofText? h, hkind, hsections]
    simp only [filterMap_map_some]
  rw [momentReaderOf?, h]
  exact hreader

/-- The sections of a reader for numbers are tried in turn. None of them sees
what another collected. -/
theorem readFront?_sections (tokens : List Token) (signs : NumberSigns) (mode : Mode)
    (input : List Char) :
    NumberReader.readFront? ⟨tokens.map fun token => .ofLeaves token.leaves⟩ signs mode input
      = (tokens.map NumberReader.ofSection).findSome? (·.readFront? signs mode input) := by
  rw [NumberReader.readFront?, List.findSome?_map, List.findSome?_map]
  refine congrArg (tokens.findSome? ·) (funext fun token => ?_)
  exact List.findSome?_singleton.symm

theorem read?_sections (kind : MomentKind) (tokens : List Token) (locale : Locale)
    (text : List Char) :
    MomentReader.read? ⟨kind, tokens.map fun token =>
        Component.ofLeaves (kind = .time) (contentLeaves token)⟩ locale text
      = (tokens.map (MomentReader.ofSection kind)).findSome? (·.read? locale text) := by
  rw [MomentReader.read?, List.findSome?_map, List.findSome?_map]
  refine congrArg (tokens.findSome? ·) (funext fun token => ?_)
  exact List.findSome?_singleton.symm

/-- What the first of some readers reads, at an offset: the cut is the same for
all of them. -/
theorem readAt?_eq_findSome? {reader : NumberReader} {readers : List NumberReader}
    {signs : NumberSigns} {mode : Mode}
    (h : ∀ input, reader.readFront? signs mode input
      = readers.findSome? (·.readFront? signs mode input)) (whole : List Char) (start : Nat) :
    reader.readAt? signs mode whole start
      = readers.findSome? (·.readAt? signs mode whole start) := by
  unfold NumberReader.readAt?
  cases Text.fromByte? start whole with
  | none =>
    exact (List.findSome?_eq_none_iff.2 fun _ _ => rfl).symm
  | some input =>
    rw [Option.bind_some, h, List.map_findSome?]
    rfl

/-- **The sections of a pattern are alternatives.** Texts that are one section
each (`OneSection`) for reading numbers, dates or times make up a pattern, and
it reads what the first of them reads that reads anything: numbers at any place
of a text, on their own or in a formula, and where they end; and dates and
times. -/
theorem reads_joined (hparse : kind.isParse = true) {texts : List (List Char)}
    (hsome : texts ≠ []) (h : ∀ text ∈ texts, OneSection kind text) :
    (∃ pattern, Pattern.ofText? kind (joined texts) = .ok pattern) ∧
      (kind = .numberParse → ∃ readers reader,
        List.Forall₂ (fun text own => numberReaderOf? text = .ok own) texts readers ∧
          numberReaderOf? (joined texts) = .ok reader ∧
          ∀ signs mode,
            (∀ input, reader.readFront? signs mode input
              = readers.findSome? (·.readFront? signs mode input)) ∧
            ∀ whole start, reader.readAt? signs mode whole start
              = readers.findSome? (·.readAt? signs mode whole start)) ∧
      (kind ≠ .numberParse → ∃ readers reader,
        List.Forall₂ (fun text own => momentReaderOf? kind text = .ok own) texts readers ∧
          momentReaderOf? kind (joined texts) = .ok reader ∧
          ∀ locale text, reader.read? locale text
            = readers.findSome? (·.read? locale text)) := by
  obtain ⟨tokens, htokens, pattern, hpattern, hsections⟩ := ofText?_joined hparse hsome h
  refine ⟨⟨pattern, hpattern⟩, ?_, fun hnumber => ?_⟩
  · rintro rfl
    refine ⟨tokens.map NumberReader.ofSection, _, List.forall₂_map_right_iff.2 ?_,
      numberReaderOf?_of_sections hpattern hsections, fun signs mode => ?_⟩
    · refine htokens.imp fun text token ⟨own, hown, hsection⟩ => ?_
      have hsections : own.sections = [token].map some := hsection
      exact numberReaderOf?_of_sections hown hsections
    · have hfront := readFront?_sections tokens signs mode
      exact ⟨hfront, readAt?_eq_findSome? hfront⟩
  · obtain ⟨read, hread⟩ : ∃ read, MomentReader.kindOf? kind = some read := by
      cases kind <;> first | exact ⟨_, rfl⟩ | exact absurd rfl hnumber | cases hparse
    refine ⟨tokens.map (MomentReader.ofSection read), _, List.forall₂_map_right_iff.2 ?_,
      momentReaderOf?_of_sections hread hpattern hsections, read?_sections read tokens⟩
    refine htokens.imp fun text token ⟨own, hown, hsection⟩ => ?_
    have hsections : own.sections = [token].map some := hsection
    exact momentReaderOf?_of_sections hread hown hsections

theorem oneSection_of_length (h : ((Pattern.ofText? kind text).toOption.map fun pattern =>
    pattern.sections.length) = some 1) : OneSection kind text := by
  obtain ⟨pattern, hpattern, hlength⟩ := Option.map_eq_some_iff.1 h
  exact ⟨pattern, eq_ok_of_toOption hpattern, hlength⟩

/-- Digits with a semicolon in quotation marks before percentages, and a half of
the day with an escaped semicolon before the hours of the day. Neither semicolon
is where a section ends. -/
theorem reads_joined_semicolons :
    (∀ text ∈ ["0\";\"0".toList, "#,##0.0%".toList], OneSection .numberParse text) ∧
    (∀ text ∈ ["h\\; AM/PM".toList, "hh:mm".toList], OneSection .timeParse text) ∧
    (∃ readers reader, List.Forall₂ (fun text own => numberReaderOf? text = .ok own)
        ["0\";\"0".toList, "#,##0.0%".toList] readers ∧
      numberReaderOf? "0\";\"0;#,##0.0%".toList = .ok reader ∧
      ∀ signs mode,
        (∀ input, reader.readFront? signs mode input
          = readers.findSome? (·.readFront? signs mode input)) ∧
        ∀ whole start, reader.readAt? signs mode whole start
          = readers.findSome? (·.readAt? signs mode whole start)) ∧
    ∃ readers reader, List.Forall₂ (fun text own => momentReaderOf? .timeParse text = .ok own)
        ["h\\; AM/PM".toList, "hh:mm".toList] readers ∧
      momentReaderOf? .timeParse "h\\; AM/PM;hh:mm".toList = .ok reader ∧
      ∀ locale text, reader.read? locale text = readers.findSome? (·.read? locale text) := by
  have hnumbers : ∀ text ∈ ["0\";\"0".toList, "#,##0.0%".toList],
      OneSection .numberParse text := by
    simp only [List.forall_mem_cons, List.not_mem_nil, false_imp_iff, implies_true, and_true]
    exact ⟨oneSection_of_length (by decide +kernel), oneSection_of_length (by decide +kernel)⟩
  have htimes : ∀ text ∈ ["h\\; AM/PM".toList, "hh:mm".toList],
      OneSection .timeParse text := by
    simp only [List.forall_mem_cons, List.not_mem_nil, false_imp_iff, implies_true, and_true]
    exact ⟨oneSection_of_length (by decide +kernel), oneSection_of_length (by decide +kernel)⟩
  exact ⟨hnumbers, htimes, (reads_joined rfl (List.cons_ne_nil _ _) hnumbers).2.1 rfl,
    (reads_joined rfl (List.cons_ne_nil _ _) htimes).2.2 (by decide)⟩

end Worksheet.Read
