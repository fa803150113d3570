import Worksheet.Proofs.Number.Size

/-!
# Arithmetic without signs

A number loses its sign by `abs`, and multiplying and dividing such numbers does
not bring one back: what comes of it is a size again or no number at all
(`Unsigned`). When it is finite it has no sign (`Unsigned.isSigned`), so its
digits are written without one, and they are digits and nothing else
(`fixedText_eq`): those of the number rounded to the places that are asked for
(`fixedDigits_eq`).
-/

namespace Worksheet.Number

open Float.Model Float.Model.UnpackedFloat

/-- An unpacked value that is positive or no number. -/
def IsUnsigned (u : UnpackedFloat) : Prop :=
  IsPositive u ∨ u = .notANumber

/-- **A number without a sign**, or none at all. It is what arithmetic keeps:
zero over zero has no sign, and is no size. -/
def Unsigned (v : Float) : Prop :=
  IsSize v ∨ v.toModel.unpack = .notANumber

variable {u u' : UnpackedFloat} {v w : Float}

theorem IsUnsigned.unsigned_pack (h : IsUnsigned u) : Unsigned (.ofModel (.pack u)) := by
  rcases h with h | rfl
  · exact .inl h.isSize_pack
  · exact .inr rfl

theorem Unsigned.isUnsigned (h : Unsigned v) : IsUnsigned v.toModel.unpack :=
  h.imp IsSize.isPositive id

theorem IsUnsigned.mul (h : IsUnsigned u) (h' : IsUnsigned u') :
    IsUnsigned (UnpackedFloat.mul Format.binary64 u u') := by
  rcases h with h | rfl
  · rcases h' with h' | rfl
    · cases u <;> cases u' <;>
        first
        | exact h.elim
        | exact h'.elim
        | exact .inr rfl
        | (obtain rfl := h; obtain rfl := h'; exact .inl rfl)
        | (obtain rfl := h; obtain rfl := h'; exact .inl (isPositive_roundWithAccuracy _ _ _))
    · cases u <;> exact .inr rfl
  · exact .inr rfl

theorem IsUnsigned.div (h : IsUnsigned u) (h' : IsUnsigned u') :
    IsUnsigned (UnpackedFloat.div Format.binary64 u u') := by
  rcases h with h | rfl
  · rcases h' with h' | rfl
    · cases u <;> cases u' <;>
        first
        | exact h.elim
        | exact h'.elim
        | exact .inr rfl
        | (obtain rfl := h; obtain rfl := h'; exact .inl rfl)
        | (obtain rfl := h; obtain rfl := h'; exact .inl (isPositive_roundWithAccuracy _ _ _))
    · cases u <;> exact .inr rfl
  · exact .inr rfl

theorem isUnsigned_abs (u : UnpackedFloat) : IsUnsigned u.abs := by
  cases u with
  | notANumber => exact .inr rfl
  | infinity | zero | finite => exact .inl rfl

theorem unsigned_abs (v : Float) : Unsigned v.abs :=
  (isUnsigned_abs v.toModel.unpack).unsigned_pack

theorem Unsigned.mul (h : Unsigned v) (h' : Unsigned w) : Unsigned (v * w) :=
  (h.isUnsigned.mul h'.isUnsigned).unsigned_pack

theorem Unsigned.div (h : Unsigned v) (h' : Unsigned w) : Unsigned (v / w) :=
  (h.isUnsigned.div h'.isUnsigned).unsigned_pack

theorem unsigned_ten : Unsigned 10 :=
  .inl (by unfold IsSize; decide)

theorem unsigned_hundred : Unsigned 100 :=
  .inl (by unfold IsSize; decide)

theorem unsigned_powLoop {result base : Float} (hresult : Unsigned result) (hbase : Unsigned base)
    (n : ℕ) : Unsigned (powLoop result base n) := by
  fun_induction powLoop result base n with
  | case1 result base n current hend =>
    unfold current
    split
    · exact hresult.mul hbase
    · exact hresult
  | case2 result base n current hmore ih =>
    refine ih ?_ (hbase.mul hbase)
    unfold current
    split
    · exact hresult.mul hbase
    · exact hresult

theorem unsigned_powInt {base : Float} (h : Unsigned base) (n : ℤ) : Unsigned (powInt base n) := by
  have hone : Unsigned 1 := .inl (by unfold IsSize; decide)
  have hsize := unsigned_powLoop hone h n.natAbs
  unfold powInt
  split
  · exact hone.div hsize
  · exact hsize

/-- **A finite number without a sign is a size**, and written without one. -/
theorem Unsigned.isSigned (h : Unsigned v) (hfinite : v.isFinite = true) :
    isSigned v = false := by
  rcases h with h | h
  · exact h.isSigned
  · change v.toModel.unpack.isFinite = true at hfinite
    rw [h] at hfinite
    cases hfinite

/-! ## Fixed places -/

theorem isDigit_of_mem_fixedDigits {places : ℕ} {b : Binary} {c : Char}
    (h : c ∈ (fixedDigits places b).1 ∨ c ∈ (fixedDigits places b).2) : c.isDigit = true := by
  rw [fixedDigits, List.splitAt_eq] at h
  exact Text.isDigit_of_mem_ofNatPadded (h.elim List.mem_of_mem_take List.mem_of_mem_drop)

/-- A number that is rounded to a number of places, in units of the last one. -/
def roundedUnits (places : ℕ) (b : Binary) : ℕ :=
  roundHalfEven (b.num * 10 ^ places) b.den

/-- **The digits before and after the point** are those of the rounded number.
Zeros in front are left out of the comparison, as `fixedDigits` writes one where
there is no other digit. -/
theorem fixedDigits_eq (places : ℕ) (b : Binary) :
    (fixedDigits places b).1.dropWhile (· == '0')
        = Text.significant (roundedUnits places b / 10 ^ places)
      ∧ (places = 0 → (fixedDigits places b).2 = [])
      ∧ (places ≠ 0 → (fixedDigits places b).2
          = Text.ofNatPadded places (roundedUnits places b % 10 ^ places)) := by
  have hwhole : ∀ c ∈ (fixedDigits places b).1, c.isDigit = true := fun c hc =>
    isDigit_of_mem_fixedDigits (.inl hc)
  have hfraction : ∀ c ∈ (fixedDigits places b).2, c.isDigit = true := fun c hc =>
    isDigit_of_mem_fixedDigits (.inr hc)
  have hlength : (fixedDigits places b).2.length = places := by
    rw [fixedDigits, List.splitAt_eq, List.length_drop]
    exact Nat.sub_sub_self (Nat.le_of_succ_le (Text.le_length_padLeft (places + 1) '0' _))
  have hvalue : Text.digitsValue ((fixedDigits places b).1 ++ (fixedDigits places b).2)
      = roundedUnits places b := by
    rw [fixedDigits, List.splitAt_eq, List.take_append_drop, Text.digitsValue_ofNatPadded]
    rfl
  rw [Text.digitsValue_append, hlength] at hvalue
  have hlt := Text.digitsValue_lt hfraction
  rw [hlength] at hlt
  generalize (fixedDigits places b).1 = whole at *
  generalize (fixedDigits places b).2 = fraction at *
  refine ⟨?_, fun hnone => ?_, fun hsome => ?_⟩
  · rw [Text.dropWhile_zero_eq hwhole, ← hvalue, Nat.add_comm, Nat.add_mul_div_right _ _
      (Nat.pow_pos (by decide)), Nat.div_eq_of_lt hlt, Nat.zero_add]
  · exact List.eq_nil_of_length_eq_zero (hlength.trans hnone)
  · have hne : fraction ≠ [] := List.ne_nil_of_length_pos (by omega)
    rw [← hvalue, Nat.mul_add_mod', Nat.mod_eq_of_lt hlt]
    conv_lhs => rw [Text.eq_ofNatPadded hfraction hne, hlength]

/-- **The text of a finite number without a sign**: digits, and a point and more
digits when places are asked for. -/
theorem fixedText_eq (places : ℕ) (hfinite : v.isFinite = true) (hsigned : isSigned v = false) :
    fixedText places v = (fixedDigits places (magnitude v)).1
      ++ if places = 0 then [] else '.' :: (fixedDigits places (magnitude v)).2 := by
  obtain ⟨hnan, hinf⟩ := isNaN_isInf_of_isFinite hfinite
  rw [fixedText, hnan, hinf, hsigned]
  rfl

theorem bne_point_of_isDigit {c : Char} (h : c.isDigit = true) : (c != '.') = true := by
  rw [bne_iff_ne]
  rintro rfl
  cases h

/-- **What stands before and after the point**: the text can be cut at its first
one. -/
theorem fixedText_split (places : ℕ) (hfinite : v.isFinite = true) (hsigned : isSigned v = false) :
    (fixedText places v).takeWhile (· != '.') = (fixedDigits places (magnitude v)).1
      ∧ ((fixedText places v).dropWhile (· != '.')).drop 1
        = (fixedDigits places (magnitude v)).2 := by
  have hwhole : ∀ c ∈ (fixedDigits places (magnitude v)).1, (c != '.') = true :=
    fun c hc => bne_point_of_isDigit (isDigit_of_mem_fixedDigits (.inl hc))
  rw [fixedText_eq places hfinite hsigned, List.takeWhile_append_of_pos hwhole,
    List.dropWhile_append_of_pos hwhole]
  split
  · rename_i hnone
    rw [List.takeWhile_nil, List.append_nil, (fixedDigits_eq places (magnitude v)).2.1 hnone]
    exact ⟨rfl, rfl⟩
  · rw [List.takeWhile_cons_of_neg (by decide), List.append_nil,
      List.dropWhile_cons_of_neg (by decide)]
    exact ⟨rfl, rfl⟩

/-- **What is no finite number has a word** for its text, whatever places are
asked for. -/
theorem fixedText_of_not_isFinite (places : ℕ) (h : Unsigned v) (hfinite : v.isFinite = false) :
    fixedText places v = "inf".toList ∨ fixedText places v = "NaN".toList := by
  rcases h with h | h
  · rcases h.finite_or with hfinite' | rfl
    · exact (Bool.false_ne_true (hfinite.symm.trans hfinite')).elim
    · exact .inl rfl
  · right
    have hnan : v.isNaN = true := by
      show v.toModel.unpack.isNaN = true
      rw [h]
      rfl
    exact if_pos hnan

theorem isDigit_of_mem_fixedText {places : ℕ} (hfinite : v.isFinite = true)
    (hsigned : isSigned v = false) :
    (∀ c ∈ (fixedText places v).takeWhile (· != '.'), c.isDigit = true) ∧
      ∀ c ∈ ((fixedText places v).dropWhile (· != '.')).drop 1, c.isDigit = true := by
  obtain ⟨hwhole, hfraction⟩ := fixedText_split places hfinite hsigned
  rw [hwhole, hfraction]
  exact ⟨fun c hc => isDigit_of_mem_fixedDigits (.inl hc),
    fun c hc => isDigit_of_mem_fixedDigits (.inr hc)⟩

end Worksheet.Number
