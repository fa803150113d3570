import Mathlib.Data.List.Induction
import Mathlib.Data.List.TakeWhile
import Worksheet.Text.Basic

/-!
# Runs of characters and decimal digits

A reader takes the longest run of characters of a class. What stands before
something that is not of the class is taken as it is
(`Text.takeRun_append_of_all`), which is what lets a text be read back when more
text follows it.

The digits of a number are such a run: all of them are digits, the first is no
zero unless the number is, and their value is the number
(`Text.digitsValue_ofNat`). The other way round, digits are those of their
value, but for zeros in front (`Text.eq_ofNatPadded`, `Text.dropWhile_zero_eq`).
-/

namespace Worksheet.Text

/-! ## Runs

A run ends at the first character that is not of its class. Readers are
followed by their rests, so what a run needs of a rest is a predicate of its
own, `Stops`. -/

/-- A rest that does not go on with a character of a class. The empty rest goes
on with none. -/
def Stops (p : Char → Bool) (rest : List Char) : Prop :=
  rest.head?.all (fun c => !p c) = true

theorem stops_cons {p : Char → Bool} {c : Char} {rest : List Char} :
    Stops p (c :: rest) ↔ p c = false := by
  unfold Stops
  cases h : p c <;> simp [h]

theorem stops_dropWhile (p : Char → Bool) (text : List Char) : Stops p (text.dropWhile p) := by
  rw [Stops, ← List.find?_not_eq_head?_dropWhile, Option.all_eq_true]
  intro c hc
  exact List.find?_some (p := fun c => !p c) hc

theorem Stops.any_eq_false {p : Char → Bool} {rest : List Char} (h : Stops p rest) :
    rest.head?.any p = false := by
  cases rest with
  | nil => rfl
  | cons c rest => exact stops_cons.1 h

/-- A run before a rest that stops it. -/
theorem takeWhile_append_of_stops {p : Char → Bool} (run : List Char) {rest : List Char}
    (h : Stops p rest) : (run ++ rest).takeWhile p = run.takeWhile p := by
  induction run with
  | nil =>
    cases rest with
    | nil => rfl
    | cons c rest =>
      rw [List.nil_append, List.takeWhile_cons, stops_cons.1 h]
      rfl
  | cons c run ih =>
    rw [List.cons_append, List.takeWhile_cons, List.takeWhile_cons, ih]

/-- What follows a run before a rest that stops it. -/
theorem dropWhile_append_of_stops {p : Char → Bool} (run : List Char) {rest : List Char}
    (h : Stops p rest) : (run ++ rest).dropWhile p = run.dropWhile p ++ rest := by
  induction run with
  | nil =>
    cases rest with
    | nil => rfl
    | cons c rest =>
      rw [List.nil_append, List.dropWhile_cons, stops_cons.1 h]
      rfl
  | cons c run ih =>
    rw [List.cons_append, List.dropWhile_cons, List.dropWhile_cons, ih]
    cases p c <;> rfl

/-- **A rest that stops a run is kept apart**: it is left, behind what would be
left without it. -/
theorem takeRun_append_of_stops {p : Char → Bool} (text : List Char) {rest : List Char}
    (h : Stops p rest) :
    takeRun p (text ++ rest) = ((takeRun p text).1, (takeRun p text).2 ++ rest) := by
  rw [takeRun, takeWhile_append_of_stops text h, dropWhile_append_of_stops text h]
  rfl

theorem takeRun_of_all {p : Char → Bool} {run : List Char} (h : ∀ c ∈ run, p c = true) :
    takeRun p run = (run, []) := by
  rw [takeRun, List.takeWhile_eq_self_iff.2 h, List.dropWhile_eq_nil_iff.2 h]

/-- **A run is taken up to a rest that stops it.** -/
theorem takeRun_append_of_all {p : Char → Bool} {run rest : List Char}
    (h : ∀ c ∈ run, p c = true) (hrest : Stops p rest) :
    takeRun p (run ++ rest) = (run, rest) := by
  rw [takeRun_append_of_stops run hrest, takeRun_of_all h]
  rfl

/-! ## Digits

Digits are written by `Nat.toDigits`, from the last one on, and read from the
first. The two meet by induction along the digits of the number. -/

theorem isAlpha_iff_toNat {c : Char} :
    c.isAlpha = true ↔ (65 ≤ c.toNat ∧ c.toNat ≤ 90) ∨ (97 ≤ c.toNat ∧ c.toNat ≤ 122) := by
  show (decide ('A'.val ≤ c.val ∧ c.val ≤ 'Z'.val)
    || (decide ('a'.val ≤ c.val) && decide (c.val ≤ 'z'.val))) = true ↔ _
  rw [Bool.or_eq_true, Bool.and_eq_true, decide_eq_true_eq, decide_eq_true_eq, decide_eq_true_eq]
  exact Iff.rfl

theorem isAlpha_eq_false_of_isDigit {c : Char} (h : c.isDigit = true) :
    c.isAlpha = false := by
  have hdigit : 48 ≤ c.toNat ∧ c.toNat ≤ 57 := Char.isDigit_iff_toNat.1 h
  rw [Bool.eq_false_iff]
  intro halpha
  have hletter := isAlpha_iff_toNat.1 halpha
  omega

theorem toNat_digitChar_sub {d : Nat} (h : d < 10) : d.digitChar.toNat - '0'.toNat = d :=
  Nat.toNat_digitChar_sub_48_of_lt_ten h

/-- Reading on from a value, which the further digits shift to the left. -/
theorem foldl_digits (digits : List Char) (value : Nat) :
    digits.foldl (fun value digit => value * 10 + (digit.toNat - '0'.toNat)) value
      = value * 10 ^ digits.length + digitsValue digits := by
  unfold digitsValue
  induction digits generalizing value with
  | nil => simp
  | cons digit digits ih =>
    rw [List.foldl_cons, List.foldl_cons, ih, ih (0 * 10 + _), List.length_cons, Nat.pow_succ']
    grind

@[simp] theorem digitsValue_nil : digitsValue [] = 0 := rfl

/-- **The value of digits one after the other.** -/
theorem digitsValue_append (front back : List Char) :
    digitsValue (front ++ back)
      = digitsValue front * 10 ^ back.length + digitsValue back := by
  conv => lhs; unfold digitsValue
  rw [List.foldl_append, foldl_digits]
  rfl

@[simp] theorem digitsValue_digitChar {d : Nat} (h : d < 10) :
    digitsValue [d.digitChar] = d := by
  unfold digitsValue
  rw [List.foldl_cons, List.foldl_nil, Nat.zero_mul, Nat.zero_add, toNat_digitChar_sub h]

@[simp] theorem digitsValue_replicate_zero (n : Nat) :
    digitsValue (List.replicate n '0') = 0 := by
  induction n with
  | zero => rfl
  | succ n ih =>
    rw [List.replicate_succ', digitsValue_append, ih, Nat.zero_mul, Nat.zero_add]
    rfl

theorem ofNat_of_le {n : Nat} (h : 10 ≤ n) :
    ofNat n = ofNat (n / 10) ++ [(n % 10).digitChar] :=
  Nat.toDigits_of_base_le (by decide) h

theorem ofNat_of_lt {n : Nat} (h : n < 10) : ofNat n = [n.digitChar] :=
  Nat.toDigits_of_lt_base h

/-- **The digits of a number have its value**, by induction along the digits of
`ofNat`. -/
@[simp] theorem digitsValue_ofNat (n : Nat) : digitsValue (ofNat n) = n := by
  induction n using Nat.strongRecOn with
  | ind n ih =>
    by_cases h : n < 10
    · rw [ofNat_of_lt h, digitsValue_digitChar h]
    · rw [ofNat_of_le (Nat.le_of_not_lt h), digitsValue_append,
        ih (n / 10) (by omega), digitsValue_digitChar (Nat.mod_lt n (by decide))]
      simp only [List.length_singleton]
      omega

theorem isDigit_of_mem_ofNat {n : Nat} {c : Char} (h : c ∈ ofNat n) : c.isDigit = true :=
  Nat.isDigit_of_mem_toDigits (by decide) (by decide) h

theorem ofNat_ne_nil (n : Nat) : ofNat n ≠ [] :=
  Nat.toDigits_ne_nil

/-- **The first digit of a number is no zero**, but for zero itself. -/
theorem head?_ofNat_ne_zero {n : Nat} (h : 0 < n) : (ofNat n).head? ≠ some '0' := by
  induction n using Nat.strongRecOn with
  | ind n ih =>
    by_cases hn : n < 10
    · rw [ofNat_of_lt hn, List.head?_cons]
      intro heq
      have hzero := Nat.digitChar_eq_zero.1 (Option.some.inj heq)
      omega
    · rw [ofNat_of_le (Nat.le_of_not_lt hn), List.head?_append,
        List.head?_eq_some_head (ofNat_ne_nil _), Option.some_or, ← List.head?_eq_some_head]
      exact ih (n / 10) (by omega) (by omega)

/-- **A number lies between the powers of ten** its digits are counted by. -/
theorem pow_length_toDigits {n : ℕ} (hpos : 0 < n) :
    10 ^ ((Nat.toDigits 10 n).length - 1) ≤ n ∧ n < 10 ^ (Nat.toDigits 10 n).length := by
  have hlength : 0 < (Nat.toDigits 10 n).length := Nat.length_toDigits_pos
  refine ⟨?_, (Nat.length_toDigits_le_iff (by decide) hlength).1 (le_refl _)⟩
  by_cases hone : (Nat.toDigits 10 n).length = 1
  · rw [hone]
    exact hpos
  · refine not_lt.1 fun hlt => ?_
    have := (Nat.length_toDigits_le_iff (by decide) (by omega)).2 hlt
    omega

theorem length_toDigits_le_log2 (n : ℕ) : (Nat.toDigits 10 n).length ≤ n.log2 + 1 := by
  refine (Nat.length_toDigits_le_iff (by decide) (Nat.succ_pos _)).2 ?_
  exact Nat.lt_log2_self.trans_le (Nat.pow_le_pow_left (by decide) _)

/-! ## Numbers of a width

Zeros in front do not change the value. A number with more digits than the
width is written with all of them. -/

theorem le_length_padLeft (width : ℕ) (pad : Char) (text : List Char) :
    width ≤ (padLeft width pad text).length := by
  rw [padLeft, List.length_append, List.length_replicate]
  omega

theorem isDigit_of_mem_ofNatPadded {width n : ℕ} {c : Char} (h : c ∈ ofNatPadded width n) :
    c.isDigit = true := by
  rcases List.mem_append.1 h with h | h
  · rw [List.eq_of_mem_replicate h]
    rfl
  · exact isDigit_of_mem_ofNat h

@[simp] theorem digitsValue_ofNatPadded (width n : ℕ) : digitsValue (ofNatPadded width n) = n := by
  rw [ofNatPadded, padLeft, digitsValue_append, digitsValue_replicate_zero, Nat.zero_mul,
    Nat.zero_add, digitsValue_ofNat]

/-- **A number that fits takes all of its width.** -/
theorem length_ofNatPadded {width n : ℕ} (hwidth : 0 < width) (h : n < 10 ^ width) :
    (ofNatPadded width n).length = width := by
  have hlength : (ofNat n).length ≤ width :=
    (Nat.length_toDigits_le_iff (by decide) hwidth).2 h
  rw [ofNatPadded, padLeft, List.length_append, List.length_replicate]
  omega

/-! ## Digits of a value

Here the digits come first: how many they are and what their value is
determines them, which gives a text its canonical form. -/

theorem exists_digitChar {c : Char} (h : c.isDigit = true) : ∃ d < 10, c = d.digitChar := by
  obtain ⟨hlow, hhigh⟩ : 48 ≤ c.toNat ∧ c.toNat ≤ 57 := Char.isDigit_iff_toNat.1 h
  have hdigit : ∀ d < 10, Char.ofNat (d + 48) = d.digitChar := by decide
  refine ⟨c.toNat - 48, by omega, ?_⟩
  rw [← hdigit _ (by omega), Nat.sub_add_cancel hlow, Char.ofNat_toNat]

/-- **Digits are below the power of ten** they are counted by. -/
theorem digitsValue_lt {digits : List Char} (h : ∀ c ∈ digits, c.isDigit = true) :
    digitsValue digits < 10 ^ digits.length := by
  induction digits using List.reverseRecOn with
  | nil => exact Nat.one_pos
  | append_singleton front c ih =>
    obtain ⟨d, hd, rfl⟩ := exists_digitChar (h c (List.mem_append_right _ List.mem_cons_self))
    have hfront := ih fun c hc => h c (List.mem_append_left _ hc)
    rw [digitsValue_append, digitsValue_digitChar hd, List.length_append, List.length_singleton,
      Nat.pow_one, Nat.pow_succ]
    omega

/-- Digits whose value is zero are zeros. -/
theorem eq_replicate_of_digitsValue {digits : List Char} (h : ∀ c ∈ digits, c.isDigit = true)
    (hzero : digitsValue digits = 0) : digits = List.replicate digits.length '0' := by
  induction digits using List.reverseRecOn with
  | nil => rfl
  | append_singleton front c ih =>
    obtain ⟨d, hd, rfl⟩ := exists_digitChar (h c (List.mem_append_right _ List.mem_cons_self))
    rw [digitsValue_append, digitsValue_digitChar hd, List.length_singleton, Nat.pow_one] at hzero
    obtain rfl : d = 0 := by omega
    rw [List.length_append, List.length_singleton, List.replicate_succ',
      ← ih (fun c hc => h c (List.mem_append_left _ hc)) (by omega)]
    rfl

/-- **Digits are determined by their value** and by how many they are. -/
theorem eq_ofNatPadded {digits : List Char} (h : ∀ c ∈ digits, c.isDigit = true)
    (hsome : digits ≠ []) : digits = ofNatPadded digits.length (digitsValue digits) := by
  induction digits using List.reverseRecOn with
  | nil => exact absurd rfl hsome
  | append_singleton front c ih =>
    obtain ⟨d, hd, rfl⟩ := exists_digitChar (h c (List.mem_append_right _ List.mem_cons_self))
    have hall : ∀ c ∈ front, c.isDigit = true := fun c hc => h c (List.mem_append_left _ hc)
    rw [digitsValue_append, digitsValue_digitChar hd, List.length_append, List.length_singleton,
      Nat.pow_one, ofNatPadded, padLeft]
    rcases Nat.eq_zero_or_pos (digitsValue front) with hzero | hpos
    · rw [hzero, Nat.zero_mul, Nat.zero_add, ofNat_of_lt hd, List.length_singleton,
        Nat.add_sub_cancel, ← eq_replicate_of_digitsValue hall hzero]
    · have hnone : front ≠ [] := by
        rintro rfl
        exact absurd hpos (by decide)
      have hdigits : ofNat (digitsValue front * 10 + d)
          = ofNat (digitsValue front) ++ [d.digitChar] := by
        rw [ofNat_of_le (by omega), show (digitsValue front * 10 + d) / 10 = digitsValue front by
          omega, show (digitsValue front * 10 + d) % 10 = d by omega]
      rw [hdigits, List.length_append, List.length_singleton, Nat.add_sub_add_right,
        ← List.append_assoc]
      exact congrArg (· ++ [d.digitChar]) (ih hall hnone)

/-- The digits of a number, of which zero has none. -/
def significant (n : ℕ) : List Char :=
  if n = 0 then [] else ofNat n

/-- **Without the zeros in front** digits are those of their value. -/
theorem dropWhile_zero_eq {digits : List Char} (h : ∀ c ∈ digits, c.isDigit = true) :
    digits.dropWhile (· == '0') = significant (digitsValue digits) := by
  have hvalue : digitsValue digits = digitsValue (digits.dropWhile (· == '0')) := by
    have hzeros : digits.takeWhile (· == '0')
        = List.replicate (digits.takeWhile (· == '0')).length '0' :=
      List.eq_replicate_iff.2 ⟨rfl, fun c hc => by simpa using List.mem_takeWhile_imp hc⟩
    conv_lhs => rw [← List.takeWhile_append_dropWhile (p := (· == '0')) (l := digits), hzeros]
    rw [digitsValue_append, digitsValue_replicate_zero, Nat.zero_mul, Nat.zero_add]
  have hall : ∀ c ∈ digits.dropWhile (· == '0'), c.isDigit = true := fun c hc =>
    h c ((List.dropWhile_suffix _).subset hc)
  have hhead : (digits.dropWhile (· == '0')).head? ≠ some '0' := fun hzero => by
    have hnot := List.head?_dropWhile_not (p := (· == '0')) digits
    rw [hzero] at hnot
    exact absurd hnot (by decide)
  rw [hvalue]
  generalize digits.dropWhile (· == '0') = rest at hall hhead
  rcases eq_or_ne rest [] with rfl | hsome
  · rfl
  · have hpadded := eq_ofNatPadded hall hsome
    rw [ofNatPadded, padLeft] at hpadded
    generalize rest.length - (ofNat (digitsValue rest)).length = zeros at hpadded
    cases zeros with
    | succ zeros =>
      -- nothing was filled up in front, since that would be a zero
      rw [hpadded] at hhead
      exact absurd rfl hhead
    | zero =>
      refine hpadded.trans (if_neg fun hzero => hhead ?_).symm
      rw [hpadded, hzero]
      rfl

end Worksheet.Text
