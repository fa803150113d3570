import Worksheet.Proofs.Formula.Scanning
import Worksheet.Proofs.Number.PlainText
import Worksheet.Proofs.Read.Alternatives
import Worksheet.Proofs.Read.Numerals

/-!
# Numbers in formulas

The pattern for the numbers in formulas reads numerals
(`Reader.literals_standard`). At a place of a text it reads one just when there
is one that can end where it does, and no longer one is there; it reads it as
the nearest double, and leaves signs to the operators (`readAt?_literals_iff`).

A number is written as a numeral without an exponent, so it is read back from
its text (`scans_number`).
-/

namespace Worksheet.Formula

open Number Read

theorem Reader.literals_standard : Reader.standard.literals = numeralReader := by
  have hpattern : Converter.numberReaderOf? standardLiterals = .ok numeralReader := by
    decide +kernel
  exact Except.ok.inj ((signs_and_literals ofPatterns?_standard).2.symm.trans hpattern)

theorem Reader.readNumber?_standard (input : List Char) :
    Reader.standard.readNumber? input
      = numeralReader.readFront? .standard .expression input := by
  rw [Reader.readNumber?, Reader.literals_standard, Reader.signs_standard]

/-! ## Reading numerals

The pattern has one section for each form of a numeral. Together they read the
longest numeral there is, if it ends where a number may end. -/

/-- What the sections read at a place of a text: a numeral where it can end.
That no longer one is there follows from how it ends. -/
theorem readAt?_numeralReader_iff {text : List Char} {start finish : Nat} {value : Float} :
    numeralReader.readAt? .standard .expression text start = some (value, finish)
      ↔ ∃ (front : List Char) (numeral : Numeral) (rest : List Char),
          text = front ++ (numeral.text ++ rest) ∧
          start = Text.byteLength front ∧
          finish = Text.byteLength (front ++ numeral.text) ∧
          EndsNumeral rest ∧ value = numeral.decimal.toFloat := by
  rw [NumberReader.readAt?, Option.bind_eq_some_iff]
  constructor
  · rintro ⟨input, hinput, hread⟩
    obtain ⟨⟨value, rest⟩, hfront, heq⟩ := Option.map_eq_some_iff.1 hread
    obtain ⟨rfl, rfl⟩ := Prod.mk.inj heq
    obtain ⟨front, rfl, hstart⟩ := Text.fromByte?_eq_some_iff.1 hinput
    obtain ⟨numeral, rfl, hend, hvalue⟩ := exists_numeral_of_readFront? hfront
    refine ⟨front, numeral, rest, rfl, hstart.symm, ?_, hend, hvalue⟩
    rw [← List.append_assoc, Text.position_append]
  · rintro ⟨front, numeral, rest, rfl, rfl, rfl, hend, rfl⟩
    refine ⟨numeral.text ++ rest, Text.fromByte?_eq_some_iff.2 ⟨front, rfl, rfl⟩, ?_⟩
    rw [readFront?_of_numeral numeral hend, Option.map_some]
    dsimp only
    rw [← List.append_assoc, Text.position_append]

/-- **The pattern for the numbers in formulas reads numerals**: at a place of a
text there is one just when a numeral begins there, no longer one does
(`Numeral.Longest`), and it is followed by something that can end a number
(`EndsNumeral`); and it is read as the nearest double (`RoundsTo`). No number
begins with a sign. -/
theorem readAt?_literals_iff :
    Converter.numberReaderOf? "#.#E+#;#.#".toList = .ok Reader.standard.literals ∧
    (∀ (text : List Char) (start finish : Nat) (value : Float),
      Reader.standard.literals.readAt? .standard .expression text start = some (value, finish)
        ↔ ∃ (front : List Char) (numeral : Numeral) (rest : List Char),
            text = front ++ (numeral.text ++ rest) ∧
            start = Text.byteLength front ∧
            finish = Text.byteLength (front ++ numeral.text) ∧
            numeral.Longest rest ∧ EndsNumeral rest ∧
            RoundsTo numeral.value value) ∧
    ∀ (text : List Char) (start : Nat) (rest : List Char) (sign : Char),
      Text.fromByte? start text = some (sign :: rest) → sign = '+' ∨ sign = '-' →
      Reader.standard.literals.readAt? .standard .expression text start = none := by
  refine ⟨(Reader.signs_and_literals Reader.ofPatterns?_standard).2, ?_, ?_⟩
  · intro text start finish value
    rw [Reader.literals_standard, readAt?_numeralReader_iff]
    constructor
    · rintro ⟨front, numeral, rest, htext, hstart, hfinish, hend, hvalue⟩
      exact ⟨front, numeral, rest, htext, hstart, hfinish, numeral.longest hend, hend,
        Decimal.roundsTo_iff.2 hvalue⟩
    · rintro ⟨front, numeral, rest, htext, hstart, hfinish, -, hend, hvalue⟩
      exact ⟨front, numeral, rest, htext, hstart, hfinish, hend, Decimal.roundsTo_iff.1 hvalue⟩
  · intro text start rest sign hinput hsign
    rw [Reader.literals_standard, Option.eq_none_iff_forall_ne_some]
    rintro ⟨value, finish⟩ hread
    obtain ⟨front, numeral, behind, htext, hstart, -, -, -⟩ := readAt?_numeralReader_iff.1 hread
    -- a numeral begins with a digit or a point
    have hfound := Text.fromByte?_eq_some_iff.2 ⟨front, htext, hstart.symm⟩
    have hhead : sign ∈ (numeral.text ++ behind).head? := by
      rw [← Option.some.inj (hinput.symm.trans hfound)]
      rfl
    rcases Numeral.isDigit_or_eq_of_mem_head? hhead with hdigit | rfl
    · rcases hsign with rfl | rfl <;> cases hdigit
    · rcases hsign with hsign | hsign <;> cases hsign

/-- Fifteen hundred with an exponent. -/
def scientific : Numeral where
  mantissa := ⟨['1'], some ['5'], List.forall_mem_singleton.2 rfl, by
    rintro _ ⟨⟩
    exact List.forall_mem_singleton.2 rfl⟩
  exponent? := some ⟨'E', none, ['3'], .inl rfl, nofun, List.forall_mem_singleton.2 rfl⟩
  digits_ne_nil := List.cons_ne_nil _ _
  exponent_ne_nil := by
    rintro _ ⟨⟩
    exact List.cons_ne_nil _ _

/-- The numeral is read up to the operator behind it; a sign before a number is
no part of it. -/
theorem readAt?_scientific :
    Reader.standard.literals.readAt? .standard .expression "1.5E3*2".toList 0 = some (1500, 5) ∧
      Reader.standard.literals.readAt? .standard .expression "-1".toList 0 = none := by
  have hend : EndsNumeral "*2".toList := by
    unfold EndsNumeral
    decide
  have hvalue : RoundsTo scientific.value 1500 := Decimal.roundsTo_iff.2 (by decide +kernel)
  have hsign : Text.fromByte? 0 "-1".toList = some ('-' :: ['1']) := by
    rw [Text.fromByte?]
    rfl
  exact ⟨(readAt?_literals_iff.2.1 _ _ _ _).2 ⟨[], scientific, "*2".toList, by decide, rfl,
    by decide, scientific.longest hend, hend, hvalue⟩,
    readAt?_literals_iff.2.2 _ _ _ _ hsign (.inr rfl)⟩

/-! ## Numbers that are written

A size is written with the shortest digits that stand for it, in plain
notation. These are a numeral, so they are read back as the nearest double,
which is the number itself. -/

/-- The numeral of digits around a point, as numbers are written in formulas. -/
def numeralOf {whole fraction : List Char} (h : Digits whole fraction) : Numeral where
  mantissa :=
    { whole
      fraction? := if fraction = [] then none else some fraction
      isDigit_whole := fun c hc => h.isDigit c (List.mem_append_left _ hc)
      isDigit_fraction := by
        split
        · nofun
        · rintro _ ⟨⟩
          exact fun c hc => h.isDigit c (List.mem_append_right _ hc) }
  exponent? := none
  digits_ne_nil := List.append_ne_nil_of_left_ne_nil h.whole_ne_nil _
  exponent_ne_nil := nofun

/-- A numeral of digits is written like them, and read like them. -/
theorem numeralOf_eq {whole fraction : List Char} (h : Digits whole fraction) :
    (numeralOf h).text = pointed whole fraction
      ∧ (numeralOf h).decimal.toFloat = ofDigits whole fraction 0 := by
  unfold numeralOf Numeral.text Numeral.decimal Mantissa.text Mantissa.digits Mantissa.fraction
    pointed ofDigits
  dsimp only
  split
  · subst_vars
    simp
  · simp

theorem digit_ne {c : Char} (h : c.isDigit = true) :
    c ≠ '"' ∧ c ≠ '#' ∧ Text.isBlank c = false := by
  have hcode := Char.isDigit_iff_toNat.1 h
  refine ⟨?_, ?_, ?_⟩
  · rintro rfl
    exact absurd h (by decide)
  · rintro rfl
    exact absurd h (by decide)
  · simp only [Text.isBlank, Bool.or_eq_false_iff, Bool.and_eq_false_iff, decide_eq_false_iff_not,
      beq_eq_false_iff_ne]
    simp at hcode
    omega

theorem scans_of_readNumber? {first : Char} {tail rest : List Char} {value : Float}
    (hfirst : first.isDigit = true)
    (h : Reader.standard.readNumber? (first :: (tail ++ rest)) = some (value, rest)) :
    Scans (.number value) (first :: tail) rest := by
  obtain ⟨hquote, hsharp, hblank⟩ := digit_ne hfirst
  refine ⟨first, tail, rfl, ?_⟩
  rw [scan, if_neg hquote, if_neg hsharp, hblank, if_neg Bool.false_ne_true, hfirst,
    Bool.true_or, if_pos rfl, h]

/-- **A number is scanned from its text**, wherever an operand may end: the
shortest digits of a double are read back as that double. -/
theorem scans_number {value : Float} (hfinite : value.isFinite = true)
    (hsign : isSigned value = false) {rest : List Char} (h : Closed rest) :
    Scans (.number value) (plainText value) rest := by
  obtain ⟨whole, fraction, htext, hdigits, hvalue⟩ := plainText_eq hfinite hsign
  obtain ⟨first, tail, hpointed, hfirst⟩ := hdigits.pointed_eq_cons
  obtain ⟨hwritten, hnumber⟩ := numeralOf_eq hdigits
  have hend : EndsNumeral rest := h.all_head? (by decide)
  have hread : Reader.standard.readNumber? (first :: (tail ++ rest)) = some (value, rest) := by
    rw [Reader.readNumber?_standard, ← List.cons_append, ← hpointed, ← hwritten,
      readFront?_of_numeral _ hend, hnumber, hvalue]
  rw [htext, hpointed]
  exact scans_of_readNumber? hfirst hread

end Worksheet.Formula
