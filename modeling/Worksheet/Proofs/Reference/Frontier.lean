import Mathlib.Data.Nat.Digits.Defs
import Worksheet.Proofs.Reference.Letters

/-!
# The last column that letters name

Letters are read by multiplying, adding and, before a further letter, adding one
more, and each of these operations is checked (`Column.onTheWay` lists what they
come to). What is reached on the way only grows and ends one below the value of
the letters (`Column.lt_of_mem_onTheWay`), so a check fails just when the column
in the end is past the limit: none of them refuses letters that name a column.

The value is that of the numeral in base 26 whose digits are the ranks of the
letters counted from one (`Column.lettersValue_eq_ofDigits`).
-/

namespace Worksheet.Column

/-- **The value of letters** is that of a numeral in base 26, its last digit
first. -/
theorem lettersValue_eq_ofDigits (name : List Char) :
    lettersValue name = Nat.ofDigits 26 (name.reverse.map fun c => letterRank c + 1) := by
  induction name using List.reverseRecOn with
  | nil => rfl
  | append_singleton front last ih =>
    rw [lettersValue_append_singleton, ih, List.reverse_append, List.reverse_singleton,
      List.singleton_append, List.map_cons, Nat.ofDigits_cons]
    omega

/-- **What is reached on the way** from a column number through further letters:
what every multiplication and every addition comes to, were nothing checked. -/
def onTheWay (index : ℕ) : List Char → List ℕ
  | [] => []
  | c :: rest =>
    index * 26 :: (index * 26 + letterRank c) ::
      if rest.isEmpty then [] else place index c :: onTheWay (place index c) rest

/-- **What is reached on the way** is below what the letters come to. -/
theorem lt_of_mem_onTheWay {name : List Char} {index number : ℕ}
    (h : number ∈ onTheWay index name) : number < name.foldl place index := by
  induction name generalizing index with
  | nil => cases h
  | cons c rest ih =>
    have hplace : place index c = index * 26 + letterRank c + 1 := rfl
    rw [List.foldl_cons]
    rcases eq_or_ne rest [] with rfl | hsome
    · simp only [onTheWay, List.isEmpty_nil, if_true, List.mem_cons, List.not_mem_nil,
        or_false] at h
      rw [List.foldl_nil]
      omega
    · have hmore := lt_foldl_place hsome (place index c)
      simp only [onTheWay, List.isEmpty_eq_false_iff.2 hsome, Bool.false_eq_true, if_false,
        List.mem_cons] at h
      rcases h with rfl | rfl | rfl | h
      · omega
      · omega
      · exact hmore
      · exact ih h

/-- One letter less to check: behind it there is a column number to go on from. -/
theorem forall_onTheWay_cons {name : List Char} (hname : name ≠ []) {index limit : ℕ} {c : Char} :
    (∀ number ∈ onTheWay index (c :: name), number < limit) ↔
      place index c < limit ∧ ∀ number ∈ onTheWay (place index c) name, number < limit := by
  have hplace : place index c = index * 26 + letterRank c + 1 := rfl
  simp only [onTheWay, List.isEmpty_eq_false_iff.2 hname, Bool.false_eq_true, if_false,
    List.forall_mem_cons]
  exact ⟨fun h => h.2.2, fun h => ⟨by omega, by omega, h⟩⟩

/-- **Letters are read as long as no check fails**, by induction on the letters:
`extend?` checks just the numbers of `onTheWay`. -/
theorem exists_extend?_iff {name : List Char} (hname : name ≠ [])
    (h : ∀ c ∈ name, c.isAlpha = true) {index : ℕ} :
    (∃ found, extend? index name = some found) ↔
      ∀ number ∈ onTheWay index name, number < indexLimit := by
  induction name generalizing index with
  | nil => exact absurd rfl hname
  | cons c rest ih =>
    obtain ⟨hc, hrest⟩ := List.forall_mem_cons.1 h
    rcases eq_or_ne rest [] with rfl | hsome
    · have hplace : place index c = index * 26 + letterRank c + 1 := rfl
      simp only [extend?_singleton, onTheWay, List.isEmpty_nil, if_true, List.forall_mem_cons,
        List.not_mem_nil, false_imp_iff, implies_true, and_true, hc, true_and]
      constructor
      · rintro ⟨found, hfound, hlimit⟩
        omega
      · rintro ⟨-, hlimit⟩
        exact ⟨index * 26 + letterRank c, hplace, hlimit⟩
    · rw [forall_onTheWay_cons hsome, ← ih hsome hrest]
      simp only [extend?_cons hsome, hc, true_and, exists_and_left]

/-- **Columns and letters.** The letters of a column name it. Some letters, in
either case, name a column just when the one below their value in base 26 is
within the limit, and then it is that one, whose letters are these as capitals.
No check on the way refuses what is within the limit in the end, and nothing but
a check refuses letters. -/
theorem columns_of_letters :
    (∀ index < indexLimit, ofLetters? (letters index) = some index) ∧
      ∀ name : List Char, name ≠ [] → (∀ c ∈ name, c.isAlpha = true) →
        let value := Nat.ofDigits 26 (name.reverse.map fun c => letterRank c + 1)
        (∀ index, ofLetters? name = some index ↔ value - 1 = index ∧ index < indexLimit) ∧
          letters (value - 1) = name.map Char.toUpper ∧
          (value - 1 < indexLimit → ∀ number ∈ onTheWay 0 name, number < indexLimit) ∧
          ((∃ index, ofLetters? name = some index) ↔
            ∀ number ∈ onTheWay 0 name, number < indexLimit) := by
  refine ⟨fun index => ofLetters?_letters, fun name hname halpha => ?_⟩
  rw [← lettersValue_eq_ofDigits]
  have hpos := lettersValue_pos hname
  refine ⟨fun index => ?_, letters_of_lettersValue halpha hname, fun hlimit number hnumber => ?_,
    ?_⟩
  · rw [ofLetters?_eq_some_iff]
    constructor
    · rintro ⟨-, hvalue, hlimit⟩
      exact ⟨by omega, hlimit⟩
    · rintro ⟨hvalue, hlimit⟩
      exact ⟨halpha, by omega, hlimit⟩
  · have hbelow : number < lettersValue name := lt_of_mem_onTheWay hnumber
    omega
  · rw [ofLetters?, if_neg (mt List.isEmpty_iff.1 hname)]
    exact exists_extend?_iff hname halpha

/-- The last column, and the letters after its own, which the last check
refuses. -/
theorem columns_of_letters_last :
    ofLetters? (letters 4294967295) = some 4294967295 ∧
      ofLetters? "mwlqkwv".toList = some 4294967295 ∧
      letters 4294967295 = "MWLQKWV".toList ∧
      (∀ number ∈ onTheWay 0 "mwlqkwv".toList, number < indexLimit) ∧
      ¬∃ index, ofLetters? "MWLQKWW".toList = some index := by
  obtain ⟨hread, hname, hway, -⟩ :=
    columns_of_letters.2 "mwlqkwv".toList (by decide) (List.all_eq_true.1 (by decide))
  obtain ⟨hrefused, -⟩ :=
    columns_of_letters.2 "MWLQKWW".toList (by decide) (List.all_eq_true.1 (by decide))
  refine ⟨columns_of_letters.1 _ (by decide), (hread _).2 (by decide), ?_, hway (by decide), ?_⟩
  · exact hname
  · rintro ⟨index, hindex⟩
    obtain ⟨rfl, hlimit⟩ := (hrefused index).1 hindex
    exact absurd hlimit (by decide)

end Worksheet.Column
