import Mathlib
import Worksheet.Proofs.Number.Rank

/-!
# When doubles are equal

A double is what it is unpacked to (`eq_of_unpack`). Comparing doubles tells no
more than that but for two exceptions: NaN equals nothing, and the two zeros
equal each other (`beq_eq_true_iff`).
-/

namespace Worksheet.Number

open Float.Model Float.Model.UnpackedFloat

variable {v w : Float}

/-- **A double is what it is unpacked to**: packing it again gives it back. -/
theorem eq_of_unpack (h : v.toModel.unpack = w.toModel.unpack) : v = w := by
  obtain ⟨⟨⟨bits⟩, hvalid⟩⟩ := v
  obtain ⟨⟨⟨bits'⟩, hvalid'⟩⟩ := w
  obtain rfl := (unpack_inj_of_valid hvalid hvalid').1 h
  rfl

/-- A zero, of either sign. -/
def IsZero (v : Float) : Prop :=
  v = 0 ∨ v = -0

theorem isZero_iff_unpack : IsZero v ↔ ∃ sign, v.toModel.unpack = .zero sign := by
  constructor
  · rintro (rfl | rfl)
    · exact ⟨.positive, rfl⟩
    · exact ⟨.negative, rfl⟩
  · rintro ⟨sign, h⟩
    cases sign with
    | positive => exact .inl (eq_of_unpack h)
    | negative => exact .inr (eq_of_unpack h)

theorem compare_self_unpacked {u : UnpackedFloat} (h : u.isNaN = false) :
    UnpackedFloat.compare u u = some .eq :=
  (compare_eq_compare_rank h h).trans (congrArg some (compare_eq_iff_eq.2 rfl))

/-- Finite values of one sign are told apart by exponent and significand. -/
theorem finite_eq_of_compare {sign : Sign} {mantissa mantissa' : ℕ} {exponent exponent' : ℤ}
    {h : 0 < mantissa} {h' : 0 < mantissa'}
    (heq : (compare exponent exponent').then (compare mantissa mantissa') = .eq) :
    UnpackedFloat.finite sign mantissa exponent h = .finite sign mantissa' exponent' h' := by
  obtain ⟨hexponent, hmantissa⟩ := Ordering.then_eq_eq.1 heq
  obtain rfl := compare_eq_iff_eq.1 hexponent
  obtain rfl := compare_eq_iff_eq.1 hmantissa
  rfl

/-- **Unpacked values that compare as equal** are the same, but for the zeros. -/
theorem eq_or_of_compare {u u' : UnpackedFloat} (h : UnpackedFloat.compare u u' = some .eq) :
    u.isNaN = false ∧ u = u' ∨ ∃ sign sign', u = .zero sign ∧ u' = .zero sign' := by
  cases u with
  | notANumber => cases h
  | infinity sign =>
    cases u' with
    | infinity sign' =>
      -- infinities are equal when their signs are
      cases sign with
      | negative =>
        cases sign' with
        | negative => exact .inl ⟨rfl, rfl⟩
        | positive => cases h
      | positive =>
        cases sign' with
        | negative => cases h
        | positive => exact .inl ⟨rfl, rfl⟩
    | notANumber | zero | finite => cases sign <;> cases h
  | zero sign =>
    cases u' with
    | zero sign' => exact .inr ⟨sign, sign', rfl, rfl⟩
    | infinity sign' | finite sign' => cases sign' <;> cases h
    | notANumber => cases h
  | finite sign mantissa exponent =>
    cases u' with
    | notANumber | zero => cases sign <;> cases h
    | infinity sign' => cases sign' <;> cases sign <;> cases h
    | finite sign' mantissa' exponent' =>
      cases sign with
      | negative =>
        cases sign' with
        | positive => cases h
        | negative =>
          exact .inl ⟨rfl, finite_eq_of_compare (Ordering.swap_eq_eq.1 (Option.some.inj h))⟩
      | positive =>
        cases sign' with
        | negative => cases h
        | positive => exact .inl ⟨rfl, finite_eq_of_compare (Option.some.inj h)⟩

/-- **Doubles are equal** when they are the same and no NaN, or both zero. So
`==` on doubles is equality but for these two exceptions. -/
theorem beq_eq_true_iff : (v == w) = true ↔ v.isNaN = false ∧ v = w ∨ IsZero v ∧ IsZero w := by
  rw [beq_iff_compare, isZero_iff_unpack, isZero_iff_unpack]
  constructor
  · intro h
    rcases eq_or_of_compare h with ⟨hnan, heq⟩ | ⟨sign, sign', hv, hw⟩
    · exact .inl ⟨hnan, eq_of_unpack heq⟩
    · exact .inr ⟨⟨sign, hv⟩, sign', hw⟩
  · rintro (⟨hnan, rfl⟩ | ⟨⟨sign, hv⟩, sign', hw⟩)
    · exact compare_self_unpacked hnan
    · rw [hv, hw]
      rfl

end Worksheet.Number
