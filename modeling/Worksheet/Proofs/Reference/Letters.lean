import Mathlib.Data.List.Induction
import Worksheet.Proofs.Text.Digits
import Worksheet.Reference.Cell

/-!
# Column letters are numerals without a zero

Letters are the digits of a numeral in base 26 whose digits run from 1 for `A`
to 26 for `Z` (`Column.lettersValue`). Without a zero among the digits, every
number from one on has one numeral and every numeral is that of its value: a
column counted from zero has the letters of the number one above it
(`Column.lettersValue_letters`), and letters in either case are, as capitals,
those of their value (`Column.letters_of_lettersValue`).

Letters are read from the first to the last, with a check of the limit at each
step. What is reached on the way never exceeds what is reached in the end, so
the letters of a column are read exactly when the column itself is within the
limit (`Column.ofLetters?_eq_some_iff`).
-/

namespace Worksheet.Column

/-! ## Single letters -/

theorem letter_spec {digit : ℕ} (h : digit < 26) :
    (letter digit).isAlpha = true ∧ letterRank (letter digit) = digit := by
  revert digit
  decide

/-- **The rank of a letter** is that of its capital, and below 26. -/
theorem letterRank_spec {c : Char} (h : c.isAlpha = true) :
    letterRank c < 26 ∧ letter (letterRank c) = c.toUpper := by
  have hcode : c.toNat < 123 := by
    have hletter := Text.isAlpha_iff_toNat.1 h
    omega
  have hall : ∀ code < 123, (Char.ofNat code).isAlpha = true →
      letterRank (Char.ofNat code) < 26
        ∧ letter (letterRank (Char.ofNat code)) = (Char.ofNat code).toUpper := by
    decide
  have hc := hall c.toNat hcode
  rw [Char.ofNat_toNat] at hc
  exact hc h

/-! ## The letters of a column -/

theorem letters_of_lt {index : ℕ} (h : index < 26) : letters index = [letter index] := by
  rw [letters, if_pos h]

theorem letters_of_le {index : ℕ} (h : 26 ≤ index) :
    letters index = letters (index / 26 - 1) ++ [letter (index % 26)] := by
  rw [letters, if_neg (Nat.not_lt.2 h)]

theorem letters_ne_nil (index : ℕ) : letters index ≠ [] := by
  unfold letters
  split <;> simp

theorem isAlpha_of_mem_letters {index : ℕ} {c : Char} (h : c ∈ letters index) :
    c.isAlpha = true := by
  induction index using Nat.strongRecOn with
  | ind index ih =>
    by_cases hindex : index < 26
    · rw [letters_of_lt hindex, List.mem_singleton] at h
      exact h ▸ (letter_spec hindex).1
    · rw [letters_of_le (Nat.le_of_not_lt hindex), List.mem_append, List.mem_singleton] at h
      rcases h with h | rfl
      · exact ih (index / 26 - 1) (by omega) h
      · exact (letter_spec (Nat.mod_lt index (by decide))).1

theorem length_letters_le {index : ℕ} (h : index < maxColumns) :
    (letters index).length ≤ 3 := by
  have hone : ∀ {n : ℕ}, n < 26 → (letters n).length = 1 := fun hn => by
    rw [letters_of_lt hn]
    rfl
  have htwo : ∀ {n : ℕ}, n < 26 * 27 → (letters n).length ≤ 2 := fun {n} hn => by
    by_cases hsmall : n < 26
    · rw [hone hsmall]
      decide
    · rw [letters_of_le (Nat.le_of_not_lt hsmall), List.length_append, hone (by omega)]
      exact Nat.le_refl 2
  by_cases hsmall : index < 26
  · rw [hone hsmall]
    decide
  · rw [letters_of_le (Nat.le_of_not_lt hsmall), List.length_append]
    have hrest := htwo (n := index / 26 - 1) (by unfold maxColumns at h; omega)
    exact Nat.add_le_add_right hrest 1

/-! ## The value of letters

The value is a fold from the front, as letters are read, while the letters of a
column are made from the back. Both meet in `lettersValue_append_singleton`. -/

def place (value : ℕ) (c : Char) : ℕ :=
  value * 26 + (letterRank c + 1)

/-- **The value of letters** in base 26, whose digits run from 1 for `A` to 26
for `Z`. There is no digit for zero, so a letter in front always adds to it. -/
def lettersValue (name : List Char) : ℕ :=
  name.foldl place 0

theorem lettersValue_append_singleton (front : List Char) (last : Char) :
    lettersValue (front ++ [last]) = lettersValue front * 26 + (letterRank last + 1) :=
  List.foldl_append

/-- **Letters that follow make a numeral larger.** So what is reached on the way
is below the end. -/
theorem lt_foldl_place {name : List Char} (hname : name ≠ []) (value : ℕ) :
    value < name.foldl place value := by
  induction name generalizing value with
  | nil => exact absurd rfl hname
  | cons c name ih =>
    have hplace : value < place value c := by
      unfold place
      omega
    rw [List.foldl_cons]
    rcases eq_or_ne name [] with rfl | hsome
    · exact hplace
    · exact hplace.trans (ih hsome (place value c))

theorem lettersValue_pos {name : List Char} (hname : name ≠ []) : 0 < lettersValue name :=
  lt_foldl_place hname 0

/-- **Letters are below the power of 27** they are counted by. -/
theorem lettersValue_lt {name : List Char} (h : ∀ c ∈ name, c.isAlpha = true) :
    lettersValue name < 27 ^ name.length := by
  induction name using List.reverseRecOn with
  | nil => exact Nat.one_pos
  | append_singleton front last ih =>
    have hfront := ih fun c hc => h c (List.mem_append_left _ hc)
    have hlast := (letterRank_spec (h last (List.mem_append_right _ List.mem_cons_self))).1
    rw [lettersValue_append_singleton, List.length_append, List.length_singleton, Nat.pow_succ]
    omega

/-- **The letters of a column have its value**, counted from one. By induction
along the recursion of `letters`, which gives the last letter first. -/
theorem lettersValue_letters (index : ℕ) : lettersValue (letters index) = index + 1 := by
  induction index using Nat.strongRecOn with
  | ind index ih =>
    by_cases hindex : index < 26
    · rw [letters_of_lt hindex]
      exact (Nat.zero_add _).trans (congrArg (· + 1) (letter_spec hindex).2)
    · have hmod : index % 26 < 26 := Nat.mod_lt index (by decide)
      rw [letters_of_le (Nat.le_of_not_lt hindex), lettersValue_append_singleton,
        ih (index / 26 - 1) (by omega), (letter_spec hmod).2]
      omega

/-- The last column is `XFD`. -/
example : lettersValue "XFD".toList = maxColumns := by decide

/-- **Letters are those of their value**, in capitals, by induction from the
last letter. -/
theorem letters_of_lettersValue {name : List Char} (h : ∀ c ∈ name, c.isAlpha = true)
    (hname : name ≠ []) : letters (lettersValue name - 1) = name.map Char.toUpper := by
  induction name using List.reverseRecOn with
  | nil => exact absurd rfl hname
  | append_singleton front last ih =>
    have hfront : ∀ c ∈ front, c.isAlpha = true := fun c hc => h c (List.mem_append_left _ hc)
    obtain ⟨hrank, hletter⟩ :=
      letterRank_spec (h last (List.mem_append_right _ List.mem_cons_self))
    rw [lettersValue_append_singleton, List.map_append, List.map_singleton, ← hletter]
    rcases eq_or_ne front [] with rfl | hsome
    · have hvalue : lettersValue [] * 26 + (letterRank last + 1) - 1 = letterRank last := by
        show 0 * 26 + (letterRank last + 1) - 1 = letterRank last
        omega
      rw [hvalue, letters_of_lt hrank]
      rfl
    · have hpos := lettersValue_pos hsome
      -- the last letter is what division by 26 leaves, and one is taken off for the front
      rw [letters_of_le (by omega), ← ih hfront hsome]
      congr 2
      · congr 1
        omega
      · congr 1
        omega

/-! ## Reading letters

Reading checks the limit after every letter, not only at the end. That is no
restriction of its own, because what is reached on the way is below what is
reached in the end (`lt_foldl_place`). -/

theorem bounded?_eq_some_iff {index found : ℕ} :
    bounded? index = some found ↔ index = found ∧ found < indexLimit := by
  unfold bounded?
  split
  · rw [Option.some.injEq]
    exact ⟨fun h => ⟨h, h ▸ ‹_›⟩, And.left⟩
  · exact ⟨nofun, fun h => absurd (h.1 ▸ h.2) ‹_›⟩

theorem extend?_singleton {index found : ℕ} {c : Char} :
    extend? index [c] = some found ↔
      c.isAlpha = true ∧ place index c = found + 1 ∧ found < indexLimit := by
  unfold place
  rw [extend?]
  cases c.isAlpha with
  | false => simp
  | true =>
    simp only [if_true, List.isEmpty_nil, extend?, Option.bind_eq_bind, Option.bind_eq_some_iff,
      bounded?_eq_some_iff, and_assoc, exists_eq_left', Option.some.injEq, true_and]
    omega

/-- A letter with more letters behind it leads to the column that they are read
on from. -/
theorem extend?_cons {name : List Char} (hname : name ≠ []) {index found : ℕ} {c : Char} :
    extend? index (c :: name) = some found ↔
      c.isAlpha = true ∧ place index c < indexLimit
        ∧ extend? (place index c) name = some found := by
  unfold place
  rw [extend?]
  cases c.isAlpha with
  | false => simp
  | true =>
    simp only [if_true, List.isEmpty_eq_false_iff.2 hname, Bool.false_eq_true, if_false,
      Option.bind_eq_bind, Option.bind_eq_some_iff, bounded?_eq_some_iff, and_assoc,
      exists_eq_left', true_and]
    exact ⟨fun h => h.2.2, fun h => ⟨by omega, by omega, h⟩⟩

/-- **Further letters are read on from a column** when the column they lead to
is within the limit. -/
theorem extend?_eq_some_iff {name : List Char} (hname : name ≠ []) {index found : ℕ} :
    extend? index name = some found ↔
      (∀ c ∈ name, c.isAlpha = true) ∧ name.foldl place index = found + 1
        ∧ found < indexLimit := by
  induction name generalizing index with
  | nil => exact absurd rfl hname
  | cons c name ih =>
    rw [List.forall_mem_cons, List.foldl_cons]
    rcases eq_or_ne name [] with rfl | hsome
    · rw [extend?_singleton, List.foldl_nil]
      simp only [List.not_mem_nil, false_imp_iff, implies_true, and_true]
    · -- what is reached on the way is no more than what is reached in the end
      have hway := lt_foldl_place hsome (place index c)
      rw [extend?_cons hsome, ih hsome]
      constructor
      · rintro ⟨hc, -, hall, hvalue, hlimit⟩
        exact ⟨⟨hc, hall⟩, hvalue, hlimit⟩
      · rintro ⟨⟨hc, hall⟩, hvalue, hlimit⟩
        exact ⟨hc, by omega, hall, hvalue, hlimit⟩

/-- **Letters are read** just when they name a column within the limit, which is
one less than their value. -/
theorem ofLetters?_eq_some_iff {name : List Char} {index : ℕ} :
    ofLetters? name = some index ↔
      (∀ c ∈ name, c.isAlpha = true) ∧ lettersValue name = index + 1 ∧ index < indexLimit := by
  unfold ofLetters?
  cases name with
  | nil => exact ⟨nofun, fun h => absurd h.2.1 (Nat.succ_ne_zero index).symm⟩
  | cons c name => exact extend?_eq_some_iff (List.cons_ne_nil c name)

/-- **The letters of a column name it.** -/
theorem ofLetters?_letters {index : ℕ} (h : index < indexLimit) :
    ofLetters? (letters index) = some index :=
  ofLetters?_eq_some_iff.2 ⟨fun _ => isAlpha_of_mem_letters, lettersValue_letters index, h⟩

end Worksheet.Column
