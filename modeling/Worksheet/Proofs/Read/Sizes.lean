import Worksheet.Proofs.Number.Nan
import Worksheet.Read.Number

/-!
# What numbers are read as

The steps of a section collect digits, and little else can happen on the way: a
step takes a percent sign if it is for one, and a sign of the number only while
one is allowed (`Collected.Follows`, `follows_take?`). Through all the steps as
many percent signs are collected as there are steps for them
(`follows_takeSteps?`).

So a section that does not scale, with one percent sign at most, reads a size or
the negative of one, and in a formula, where signs are operators, a size
(`NumberCandidate.exists_isSize_of_read?`). It may be infinite, but is never NaN
(`NumberCandidate.isNaN_of_read?`). With a few hundred percent signs it could
be: they make an infinite divisor.
-/

namespace Worksheet.Read

open Pattern Format Number

/-! ## Steps

Nothing is asked of the steps here. `Collected.Follows` is the invariant of one
step, and its transitivity carries it over a list. -/

/-- **What is collected later**, after so many percent signs: where no sign of
the number was allowed there is none still. It is reflexive, and transitive with
the percent signs added up. -/
structure Collected.Follows (before after : Collected) (percents : ℕ) : Prop where
  percent : after.percent = before.percent + percents
  sign : before.signAllowed = false →
    after.negative = before.negative ∧ after.signAllowed = false

variable {signs : NumberSigns} {collected collected' : Collected} {text rest : List Char}

namespace Collected.Follows

theorem refl (collected : Collected) : collected.Follows collected 0 :=
  ⟨rfl, fun h => ⟨rfl, h⟩⟩

theorem trans {first second third : Collected} {m n : ℕ} (h : first.Follows second m)
    (h' : second.Follows third n) : first.Follows third (m + n) where
  percent := by rw [h'.percent, h.percent, Nat.add_assoc]
  sign hallowed := by
    obtain ⟨hnegative, hsecond⟩ := h.sign hallowed
    obtain ⟨hnegative', hthird⟩ := h'.sign hsecond
    exact ⟨hnegative'.trans hnegative, hthird⟩

end Collected.Follows

theorem follows_takeSign (signs : NumberSigns) (collected : Collected) (text : List Char) :
    collected.Follows (collected.takeSign signs text).1 0 := by
  unfold Collected.takeSign
  split
  · split
    · rename_i hallowed
      have hsign : ∀ {P : Prop}, collected.signAllowed = false → P := fun hnone =>
        (Bool.false_ne_true (hnone.symm.trans hallowed)).elim
      split
      · exact ⟨rfl, hsign⟩
      · split
        · exact ⟨rfl, hsign⟩
        · exact .refl collected
    · exact .refl collected
  · exact .refl collected

theorem follows_addDigits (collected : Collected) (zone : Zone) (digits : List Char) :
    collected.Follows (collected.addDigits zone digits) 0 := by
  cases zone <;> exact ⟨rfl, fun h => ⟨rfl, h⟩⟩

theorem follows_takePlace (signs : NumberSigns) (grouping : Bool) (placeholder : Placeholder)
    (zone : Zone) (isLast : Bool) (collected : Collected) (text : List Char) :
    collected.Follows (takePlace signs grouping placeholder zone isLast collected text).1 0 := by
  unfold takePlace
  split
  · exact follows_addDigits _ _ _
  · split
    · split
      · exact follows_addDigits _ _ _
      · split <;> exact .refl collected
    · exact .refl collected

/-- **A step takes a percent sign** if it is for one, and a sign only where one
is allowed. One case for each kind of step. -/
theorem follows_take? {grouping : Bool} {step : Step}
    (h : step.take? signs grouping collected text = some (collected', rest)) :
    collected.Follows collected' (if step = .percent then 1 else 0) := by
  cases step with
  | digit placeholder zone isLast =>
    rw [if_neg nofun]
    simp only [Step.take?] at h
    split at h
    · obtain ⟨rfl, -⟩ := Prod.mk.inj (Option.some.inj h)
      exact .refl collected
    · split at h
      · -- the sign, where one may still come, then the digits
        have hplace := (follows_takeSign signs collected text).trans
          (follows_takePlace signs grouping placeholder zone isLast _
            (collected.takeSign signs text).2)
        rwa [Option.some.inj h] at hplace
      · have hplace := follows_takePlace signs grouping placeholder zone isLast collected text
        rwa [Option.some.inj h] at hplace
  | decimalPoint =>
    simp only [Step.take?] at h
    split at h
    · split at h <;> obtain ⟨rfl, -⟩ := Prod.mk.inj (Option.some.inj h)
      · exact ⟨rfl, fun hallowed => ⟨rfl, hallowed⟩⟩
      · exact .refl collected
    · obtain ⟨rfl, -⟩ := Prod.mk.inj (Option.some.inj h)
      exact .refl collected
  | exponent =>
    simp only [Step.take?] at h
    split at h
    · cases h
    · split at h
      · split at h
        · obtain ⟨rfl, -⟩ := Prod.mk.inj (Option.some.inj h)
          exact ⟨rfl, fun hallowed => ⟨rfl, hallowed⟩⟩
        · split at h <;> obtain ⟨rfl, -⟩ := Prod.mk.inj (Option.some.inj h) <;>
            exact ⟨rfl, fun hallowed => ⟨rfl, hallowed⟩⟩
      · obtain ⟨rfl, -⟩ := Prod.mk.inj (Option.some.inj h)
        exact ⟨rfl, fun hallowed => ⟨rfl, hallowed⟩⟩
  | percent =>
    simp only [Step.take?] at h
    split at h
    · split at h
      · obtain ⟨rfl, -⟩ := Prod.mk.inj (Option.some.inj h)
        exact ⟨rfl, fun hallowed => ⟨rfl, hallowed⟩⟩
      · cases h
    · cases h
  | whitespace =>
    obtain ⟨rfl, -⟩ := Prod.mk.inj (Option.some.inj h)
    exact .refl collected
  | currency | literal =>
    obtain ⟨after, -, heq⟩ := Option.map_eq_some_iff.1 h
    obtain ⟨rfl, -⟩ := Prod.mk.inj heq
    exact .refl collected

/-- **Steps take as many percent signs as they are for**, by induction on the
steps. -/
theorem follows_takeSteps? {grouping : Bool} {steps : List Step}
    (h : takeSteps? signs grouping steps collected text = some (collected', rest)) :
    collected.Follows collected' (steps.count .percent) := by
  induction steps generalizing collected text with
  | nil =>
    obtain ⟨rfl, -⟩ := Prod.mk.inj (Option.some.inj h)
    exact .refl collected
  | cons step steps ih =>
    rw [takeSteps?] at h
    split at h
    · rename_i hstep
      rw [List.count_cons, Nat.add_comm]
      simp only [beq_iff_eq]
      exact (follows_take? hstep).trans (ih h)
    · cases h

/-! ## Sizes with a sign

Digits come to a size (`isSize_ofDigits`). The sign and a division by a hundred
are all that is done to it, so it is never NaN; two percent signs would need
powers that may not be finite. -/

/-- A hundred, at most once, is a finite divisor. It is what is divided by where
there is a percent sign. -/
theorem finite_powInt_hundred {n : ℕ} (h : n ≤ 1) :
    (powInt 100 n).isFinite = true ∧ isSigned (powInt 100 n) = false ∧
      0 < (magnitude (powInt 100 n)).significand := by
  obtain rfl | rfl := Nat.le_one_iff_eq_zero_or_eq_one.1 h <;> decide +kernel

/-- **What is collected with one percent sign at most** is a size, with its
sign. -/
theorem Collected.exists_isSize (hpercent : collected.percent ≤ 1) {value : Float}
    (hvalue : collected.value? 0 = some value) :
    ∃ size, IsSize size ∧ value = if collected.negative then -size else size := by
  unfold value? at hvalue
  split at hvalue
  · cases hvalue
  · split at hvalue
    · cases hvalue
    · obtain ⟨hfinite, hsigned, hpos⟩ := finite_powInt_hundred hpercent
      have hsize := ((isSize_ofDigits collected.integer collected.fraction
        (if collected.hasExponent then collected.exponentValue else 0)).div hfinite hsigned
          hpos).mul_toFloat Binary.isDouble_one
      refine ⟨_, hsize, ?_⟩
      rw [Binary.toFloat_one]
      simp only [Nat.cast_zero, powInt_zero] at hvalue
      exact (Option.some.inj hvalue).symm

namespace NumberCandidate

variable {candidate : NumberCandidate} {mode : Mode} {value : Float}

/-- **A section that does not scale**, with one percent sign at most, reads a
size, or the negative of one where the number is a whole text. Scaling and
further percent signs could make NaN of it, through an infinite
`Number.powInt`. -/
theorem exists_isSize_of_read? (hscale : candidate.scale = 0)
    (hsteps : candidate.steps.count .percent ≤ 1)
    (h : candidate.read? signs mode text = some (value, rest)) :
    ∃ size, IsSize size ∧ (value = size ∨ mode = .value ∧ value = -size) := by
  simp only [read?, hscale] at h
  split at h
  · cases h
  · rename_i collected after htake
    split at h
    · obtain ⟨number, hnumber, heq⟩ := Option.map_eq_some_iff.1 h
      obtain ⟨rfl, -⟩ := Prod.mk.inj heq
      have hfollows := (follows_takeSign signs (.start mode) text).trans (follows_takeSteps? htake)
      obtain ⟨size, hsize, hvalue⟩ := Collected.exists_isSize
        (hfollows.percent.trans_le (by rwa [Nat.zero_add, Collected.start, Nat.zero_add])) hnumber
      refine ⟨size, hsize, ?_⟩
      cases hnegative : collected.negative with
      | false =>
        rw [hnegative, if_neg Bool.false_ne_true] at hvalue
        exact .inl hvalue
      | true =>
        rw [hnegative, if_pos rfl] at hvalue
        cases mode with
        | value => exact .inr ⟨rfl, hvalue⟩
        | expression =>
          have hnone : collected.negative = false := (hfollows.sign rfl).1
          exact (Bool.false_ne_true (hnone.symm.trans hnegative)).elim
    · cases h

/-- **Such a section reads no NaN**, as a size is none and neither is the
negative of one. -/
theorem isNaN_of_read? (hscale : candidate.scale = 0)
    (hsteps : candidate.steps.count .percent ≤ 1)
    (h : candidate.read? signs mode text = some (value, rest)) : value.isNaN = false := by
  obtain ⟨size, hsize, rfl | ⟨-, rfl⟩⟩ := exists_isSize_of_read? hscale hsteps h
  · exact hsize.isNaN_eq_false
  · exact (isNaN_neg size).trans hsize.isNaN_eq_false

end NumberCandidate

end Worksheet.Read
