import Mathlib.Algebra.Order.Group.Int
import Mathlib.Data.Prod.Lex
import Mathlib.Order.Compare
import Worksheet.Formula.Comparison

/-!
# The ranks of doubles

Away from NaN doubles stand in a row: the negative infinity, the negative
numbers with the larger exponents and significands first, the two zeros side by
side, the positive numbers, and the positive infinity. The rank of a double in
this row is three whole numbers, in the order of dictionaries (`Rank.ofFloat`),
and doubles compare as their ranks do (`numberOrder?_eq_compare_rank`).

With ranks comparing is a linear order: of two doubles one is less or they are
equal, and what is less than the lesser one is less.
-/

namespace Worksheet.Number

open Float.Model Float.Model.UnpackedFloat

/-- A rank among the doubles: three whole numbers in the order of dictionaries,
made by `Rank.make`. -/
abbrev Rank : Type :=
  ℤ ×ₗ ℤ ×ₗ ℤ

namespace Rank

/-- The rank with a sign, an exponent and a significand. Where the sign is
negative, the other two count down. -/
def make (sign exponent significand : ℤ) : Rank :=
  toLex (sign, toLex (exponent, significand))

/-- The rank of an unpacked value. Both zeros have the same, and NaN has none of
its own. -/
def ofUnpacked : UnpackedFloat → Rank
  | .infinity .negative => make (-2) 0 0
  | .finite .negative mantissa exponent _ => make (-1) (-exponent) (-mantissa)
  | .zero _ | .notANumber => make 0 0 0
  | .finite .positive mantissa exponent _ => make 1 exponent mantissa
  | .infinity .positive => make 2 0 0

def ofFloat (value : Float) : Rank :=
  ofUnpacked value.toModel.unpack

end Rank

theorem compare_natCast (m n : ℕ) : compare (m : ℤ) (n : ℤ) = compare m n := by
  have hmono : StrictMono (Nat.cast : ℕ → ℤ) := fun _ _ => Int.ofNat_lt.2
  rw [← cmp_eq_compare, ← cmp_eq_compare, hmono.cmp_map_eq]

theorem compare_neg_neg (a b : ℤ) : compare (-a) (-b) = (compare a b).swap := by
  have hanti : StrictAnti (Neg.neg : ℤ → ℤ) := fun _ _ => Int.neg_lt_neg
  rw [← cmp_eq_compare, ← cmp_eq_compare, cmp_swap, hanti.cmp_map_eq]

/-- **Unpacked values compare as their ranks**, away from NaN. One case for each
pair of kinds and signs. -/
theorem compare_eq_compare_rank {u u' : UnpackedFloat} (h : u.isNaN = false)
    (h' : u'.isNaN = false) :
    UnpackedFloat.compare u u' = some (compare (Rank.ofUnpacked u) (Rank.ofUnpacked u')) := by
  cases u with
  | notANumber => cases h
  | infinity sign | zero sign =>
    cases u' with
    | notANumber => cases h'
    | infinity sign' | zero sign' => cases sign <;> cases sign' <;> rfl
    | finite sign' => cases sign <;> cases sign' <;> rfl
  | finite sign mantissa exponent =>
    cases u' with
    | notANumber => cases h'
    | infinity sign' | zero sign' => cases sign <;> cases sign' <;> rfl
    | finite sign' mantissa' exponent' =>
      cases sign with
      | negative =>
        cases sign' with
        | positive => rfl
        | negative =>
          -- below zero the order turns round, in the exponent first
          show some (((compare exponent exponent').then (compare mantissa mantissa')).swap) =
            some ((compare (-exponent) (-exponent')).then (compare (-mantissa : ℤ) (-mantissa')))
          rw [compare_neg_neg, compare_neg_neg, compare_natCast, Ordering.swap_then]
      | positive =>
        cases sign' with
        | negative => rfl
        | positive =>
          show some ((compare exponent exponent').then (compare mantissa mantissa')) =
            some ((compare exponent exponent').then (compare (mantissa : ℤ) mantissa'))
          rw [compare_natCast]

variable {a b : Float}

theorem lt_iff_compare :
    a < b ↔ UnpackedFloat.compare a.toModel.unpack b.toModel.unpack = some .lt := by
  show Float.lt a b = true ↔ _
  rw [Float.lt, decide_eq_true_eq]
  exact beq_iff_eq

theorem beq_iff_compare :
    (a == b) = true ↔ UnpackedFloat.compare a.toModel.unpack b.toModel.unpack = some .eq := by
  show (UnpackedFloat.compare a.toModel.unpack b.toModel.unpack == some Ordering.eq) = true ↔ _
  exact beq_iff_eq

theorem le_iff_compare :
    a ≤ b ↔ (UnpackedFloat.compare a.toModel.unpack b.toModel.unpack).any (·.isLE) = true := by
  show Float.le a b = true ↔ _
  rw [Float.le, decide_eq_true_eq]
  exact Iff.rfl

/-- **Two doubles are in one of three orders**, away from NaN, and each
comparison tells one of them. -/
theorem exists_ordering (ha : a.isNaN = false) (hb : b.isNaN = false) : ∃ order : Ordering,
    (a < b ↔ order = .lt) ∧ ((a == b) = true ↔ order = .eq) ∧ (b < a ↔ order = .gt) ∧
      (b ≤ a ↔ order ≠ .lt) := by
  have hab : UnpackedFloat.compare a.toModel.unpack b.toModel.unpack =
      some (compare (Rank.ofFloat a) (Rank.ofFloat b)) := compare_eq_compare_rank ha hb
  have hba : UnpackedFloat.compare b.toModel.unpack a.toModel.unpack =
      some (compare (Rank.ofFloat a) (Rank.ofFloat b)).swap :=
    (compare_eq_compare_rank hb ha).trans (congrArg some Std.OrientedCmp.eq_swap)
  refine ⟨compare (Rank.ofFloat a) (Rank.ofFloat b), ?_⟩
  rw [lt_iff_compare, beq_iff_compare, lt_iff_compare, le_iff_compare, hab, hba]
  cases compare (Rank.ofFloat a) (Rank.ofFloat b) <;> decide

/-- **The order of two doubles** is that of their ranks, away from NaN. So
`Formula.Comparable.numberOrder?` is a linear order there, which nothing more
has to be proved of. -/
theorem numberOrder?_eq_compare_rank (ha : a.isNaN = false) (hb : b.isNaN = false) :
    Formula.Comparable.numberOrder? a b = some (compare (Rank.ofFloat a) (Rank.ofFloat b)) := by
  have hab : UnpackedFloat.compare a.toModel.unpack b.toModel.unpack =
      some (compare (Rank.ofFloat a) (Rank.ofFloat b)) := compare_eq_compare_rank ha hb
  have hba : UnpackedFloat.compare b.toModel.unpack a.toModel.unpack =
      some (compare (Rank.ofFloat b) (Rank.ofFloat a)) := compare_eq_compare_rank hb ha
  have hswap : compare (Rank.ofFloat b) (Rank.ofFloat a) =
      (compare (Rank.ofFloat a) (Rank.ofFloat b)).swap := Std.OrientedCmp.eq_swap
  unfold Formula.Comparable.numberOrder?
  simp only [lt_iff_compare, beq_iff_compare, hab, hba, hswap, Option.some.injEq]
  cases compare (Rank.ofFloat a) (Rank.ofFloat b) <;> rfl

end Worksheet.Number
