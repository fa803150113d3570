import Worksheet.Proofs.Calendar.Serial
import Worksheet.Proofs.Formula.Evaluation
import Worksheet.Proofs.Number.Rank

/-!
# The order of values

Values that are compared form one row: numbers, dates and times first, texts and
selections next, and the booleans last. Each form that is compared has a key in
this row (`Comparable.key`), and two forms without NaN compare as their keys do
(`Comparable.order?_eq_compare_key`).

So of two values exactly one of less, equal and greater holds, the other three
operators say what they should, and sides can be changed (`Operator.OrderLaws`).
This is so for nothing as well, which takes the kind of what it is compared
with. Because it does, less and equal are transitive only without it: nothing
equals zero and the empty text, and these are not equal (`comparison_laws`).
-/

namespace Worksheet

open Number (Rank)

namespace Formula.Comparable

/-- What a form is compared by: which part of the row it is in, and then the
number, the text or the boolean. Components that a form does not have are the
same for all forms of its part. -/
abbrev Key : Type :=
  ℕ ×ₗ Rank ×ₗ List Char ×ₗ Bool

/-- The key of a form. Numbers have a `Rank`, which orders all doubles but NaN
and does not tell the two zeros apart. -/
def key : Comparable → Key
  | number value => toLex (0, toLex (Rank.ofFloat value, toLex ([], false)))
  | text value => toLex (1, toLex (Rank.make 0 0 0, toLex (value, false)))
  | boolean value => toLex (2, toLex (Rank.make 0 0 0, toLex ([], value)))

/-- Whether a form has an order with others: it is not NaN. -/
def IsOrdered : Comparable → Prop
  | number value => value.isNaN = false
  | text _ | boolean _ => True

/-- **Forms compare as their keys.** The keys are a linear order, so all laws
below come from there. -/
theorem order?_eq_compare_key {a b : Comparable} (ha : a.IsOrdered) (hb : b.IsOrdered) :
    a.order? b = some (compare a.key b.key) := by
  cases a with
  | number x =>
    cases b with
    | number y =>
      show numberOrder? x y = some ((compare (Rank.ofFloat x) (Rank.ofFloat y)).then .eq)
      rw [Number.numberOrder?_eq_compare_rank ha hb, Ordering.then_eq]
    | text | boolean => rfl
  | text x =>
    cases b with
    | text y =>
      show some (compare x y) = some ((compare x y).then .eq)
      rw [Ordering.then_eq]
    | number | boolean => rfl
  | boolean x =>
    cases b with
    | boolean y => rfl
    | number | text => rfl

end Formula.Comparable

open Formula

variable {a b c : Value}

namespace Value

/-- **A value that can be compared**: it is neither an error nor NaN. -/
def IsOrdered (value : Value) : Prop :=
  value.isError = false ∧ ∀ x, value = .number x → x.isNaN = false

theorem IsOrdered.ofValue (h : a.IsOrdered) (other : Value) :
    (Comparable.ofValue other a).IsOrdered := by
  cases a with
  | number x => exact h.2 x rfl
  | int x => exact Number.isNaN_ofInt x
  | date x => exact Serial.isNaN_ofDateTime ⟨x, .midnight⟩
  | dateTime x => exact Serial.isNaN_ofDateTime x
  | time x => exact (Serial.isSize_ofTime x).isNaN_eq_false
  | text | boolean | selection => trivial
  | error => cases h.1
  | empty =>
    cases other with
    | text | selection | boolean => trivial
    | _ => exact Number.isSize_zero.isNaN_eq_false

/-- The order of two values, by their keys. Each value is given its form beside
the other, as nothing takes the kind of what it is compared with. -/
def order (a b : Value) : Ordering :=
  compare (Comparable.ofValue b a).key (Comparable.ofValue a b).key

theorem order_swap (a b : Value) : order b a = (order a b).swap :=
  Std.OrientedOrd.eq_swap

end Value

namespace Formula.Operator

variable (surroundings : Surroundings)

/-- Whether a comparison of two values is true. -/
def IsTrue (operator : Operator) (a b : Value) : Prop :=
  operator.apply surroundings a b = .boolean true

variable {surroundings}

/-- A comparison of values that can be compared is true or false, by their
order. -/
theorem isTrue_iff_holds (operator : Operator) (hcomparison : operator.isComparison = true)
    (ha : a.IsOrdered) (hb : b.IsOrdered) :
    operator.IsTrue surroundings a b ↔ operator.holds (some (a.order b)) = true := by
  have hnone : operator.arithmetic? = none := by
    rw [← Option.isNone_iff_eq_none, operator.isNone_arithmetic?, hcomparison]
  unfold IsTrue
  rw [apply_of_arithmetic?_eq_none ha.1 hb.1 hnone, compares,
    Comparable.order?_eq_compare_key (ha.ofValue b) (hb.ofValue a), Value.boolean.injEq]
  rfl

/-- **The laws of comparing two values**, each said of what the operators
answer. -/
structure OrderLaws (surroundings : Surroundings) (a b : Value) : Prop where
  /-- Exactly one of less, equal and greater holds. -/
  trichotomy :
    (less.IsTrue surroundings a b ∧ ¬equal.IsTrue surroundings a b ∧
        ¬greater.IsTrue surroundings a b) ∨
      (¬less.IsTrue surroundings a b ∧ equal.IsTrue surroundings a b ∧
        ¬greater.IsTrue surroundings a b) ∨
      (¬less.IsTrue surroundings a b ∧ ¬equal.IsTrue surroundings a b ∧
        greater.IsTrue surroundings a b)
  /-- At most is less or equal. -/
  lessEqual_iff : lessEqual.IsTrue surroundings a b ↔
    less.IsTrue surroundings a b ∨ equal.IsTrue surroundings a b
  /-- At least is greater or equal. -/
  greaterEqual_iff : greaterEqual.IsTrue surroundings a b ↔
    greater.IsTrue surroundings a b ∨ equal.IsTrue surroundings a b
  /-- Unequal is not equal. -/
  notEqual_iff : notEqual.IsTrue surroundings a b ↔ ¬equal.IsTrue surroundings a b
  /-- Less is greater from the other side. -/
  less_iff_greater : less.IsTrue surroundings a b ↔ greater.IsTrue surroundings b a

theorem less_iff (ha : a.IsOrdered) (hb : b.IsOrdered) :
    less.IsTrue surroundings a b ↔ a.order b = .lt := by
  rw [less.isTrue_iff_holds rfl ha hb]
  cases a.order b <;> decide

theorem equal_iff (ha : a.IsOrdered) (hb : b.IsOrdered) :
    equal.IsTrue surroundings a b ↔ a.order b = .eq := by
  rw [equal.isTrue_iff_holds rfl ha hb]
  cases a.order b <;> decide

theorem greater_iff (ha : a.IsOrdered) (hb : b.IsOrdered) :
    greater.IsTrue surroundings a b ↔ a.order b = .gt := by
  rw [greater.isTrue_iff_holds rfl ha hb]
  cases a.order b <;> decide

/-- **Two values that can be compared obey the laws**, nothing included. -/
theorem orderLaws (ha : a.IsOrdered) (hb : b.IsOrdered) : OrderLaws surroundings a b where
  trichotomy := by
    rw [less_iff ha hb, equal_iff ha hb, greater_iff ha hb]
    cases a.order b <;> decide
  lessEqual_iff := by
    rw [less_iff ha hb, equal_iff ha hb, lessEqual.isTrue_iff_holds rfl ha hb]
    cases a.order b <;> decide
  greaterEqual_iff := by
    rw [greater_iff ha hb, equal_iff ha hb, greaterEqual.isTrue_iff_holds rfl ha hb]
    cases a.order b <;> decide
  notEqual_iff := by
    rw [equal_iff ha hb, notEqual.isTrue_iff_holds rfl ha hb]
    cases a.order b <;> decide
  less_iff_greater := by
    rw [less_iff ha hb, greater_iff hb ha, a.order_swap b, Ordering.swap_eq_gt]

end Formula.Operator

/-! ## One row

Nothing takes the kind of what it is compared with, so it has no place of its
own in the row. Away from it the order of two values is the order of their
keys, which is linear, and transitivity comes from there. -/

namespace Value

/-- **A value with a key of its own**: it can be compared and is not nothing. -/
structure IsKeyed (value : Value) : Prop where
  ordered : value.IsOrdered
  ne_empty : value ≠ .empty

/-- The key of a value that has one. -/
def key (value : Value) : Comparable.Key :=
  (Comparable.ofValue .empty value).key

/-- **The order of two values is that of their keys**: only nothing depends on
what it is beside. -/
theorem order_eq (ha : a.IsKeyed) (hb : b.IsKeyed) : order a b = compare a.key b.key := by
  have hform : ∀ {value : Value}, value ≠ .empty → ∀ other,
      Comparable.ofValue other value = Comparable.ofValue .empty value := by
    intro value hvalue other
    cases value with
    | empty => exact (hvalue rfl).elim
    | _ => rfl
  rw [order, hform ha.ne_empty, hform hb.ne_empty]
  rfl

/-- Which part of the row a value is in: numbers, texts or booleans. -/
def part (value : Value) : ℕ :=
  (ofLex value.key).1

/-- What is in an earlier part of the row comes first. -/
theorem compare_key_of_part_lt (h : a.part < b.part) : compare a.key b.key = .lt := by
  show (compare a.part b.part).then _ = .lt
  rw [Nat.compare_eq_lt.2 h]
  rfl

/-- The first part of the row is numbers, dates and times. -/
theorem part_of_numeric (h : a.kind ∈ [.number, .date, .dateTime, .time]) : a.part = 0 := by
  cases a with
  | int | number | date | dateTime | time => rfl
  | _ => exact absurd h (of_decide_eq_false rfl)

/-- The next part is texts and selections. -/
theorem part_of_textual (h : a.kind ∈ [.text, .selection]) : a.part = 1 := by
  cases a with
  | text | selection => rfl
  | _ => exact absurd h (of_decide_eq_false rfl)

/-- The last part is the booleans. -/
theorem part_of_boolean (h : a.kind = .boolean) : a.part = 2 := by
  cases a with
  | boolean => rfl
  | _ => cases h

end Value

namespace Formula.Operator

variable {surroundings : Surroundings}

/-- **Less is transitive** on values with keys of their own. -/
theorem less_trans (ha : a.IsKeyed) (hb : b.IsKeyed) (hc : c.IsKeyed)
    (hab : less.IsTrue surroundings a b) (hbc : less.IsTrue surroundings b c) :
    less.IsTrue surroundings a c := by
  rw [less_iff ha.ordered hb.ordered, Value.order_eq ha hb] at hab
  rw [less_iff hb.ordered hc.ordered, Value.order_eq hb hc] at hbc
  rw [less_iff ha.ordered hc.ordered, Value.order_eq ha hc]
  exact Std.TransCmp.lt_trans hab hbc

/-- **Equal is transitive** there as well. With nothing it would not be: nothing
is equal to zero and to the empty text. -/
theorem equal_trans (ha : a.IsKeyed) (hb : b.IsKeyed) (hc : c.IsKeyed)
    (hab : equal.IsTrue surroundings a b) (hbc : equal.IsTrue surroundings b c) :
    equal.IsTrue surroundings a c := by
  rw [equal_iff ha.ordered hb.ordered, Value.order_eq ha hb] at hab
  rw [equal_iff hb.ordered hc.ordered, Value.order_eq hb hc] at hbc
  rw [equal_iff ha.ordered hc.ordered, Value.order_eq ha hc]
  exact Std.TransCmp.eq_trans hab hbc

theorem less_of_part_lt (ha : a.IsKeyed) (hb : b.IsKeyed) (h : a.part < b.part) :
    less.IsTrue surroundings a b := by
  rw [less_iff ha.ordered hb.ordered, Value.order_eq ha hb]
  exact Value.compare_key_of_part_lt h

/-- **Comparing is consistent.** Any two values that are neither errors nor NaN
obey the laws of comparing two values (`OrderLaws`). Among those that are not
nothing less and equal are transitive, and numbers, dates and times are less
than texts and selections, which are less than booleans. -/
theorem comparison_laws (surroundings : Surroundings) :
    (∀ a b : Value, a.IsOrdered → b.IsOrdered → OrderLaws surroundings a b) ∧
      ∀ a b c : Value, a.IsKeyed → b.IsKeyed → c.IsKeyed →
        (less.IsTrue surroundings a b → less.IsTrue surroundings b c →
          less.IsTrue surroundings a c) ∧
        (equal.IsTrue surroundings a b → equal.IsTrue surroundings b c →
          equal.IsTrue surroundings a c) ∧
        (a.kind ∈ [.number, .date, .dateTime, .time] → b.kind ∈ [.text, .selection] →
          less.IsTrue surroundings a b) ∧
        (b.kind ∈ [.text, .selection] → c.kind = .boolean → less.IsTrue surroundings b c) := by
  refine ⟨fun a b ha hb => orderLaws ha hb, fun a b c ha hb hc =>
    ⟨less_trans ha hb hc, equal_trans ha hb hc, ?_, ?_⟩⟩
  · intro hnumeric htextual
    refine less_of_part_lt ha hb ?_
    rw [Value.part_of_numeric hnumeric, Value.part_of_textual htextual]
    exact Nat.zero_lt_one
  · intro htextual hboolean
    refine less_of_part_lt hb hc ?_
    rw [Value.part_of_textual htextual, Value.part_of_boolean hboolean]
    exact Nat.one_lt_two

/-- `2 < "A"`, `"A" < TRUE`, and 2 is the number 2. -/
theorem comparison_laws_mixed :
    OrderLaws .standard .empty (.text ['A']) ∧
      less.IsTrue .standard (.number 2) (.text ['A']) ∧
      less.IsTrue .standard (.text ['A']) (.boolean true) ∧
      less.IsTrue .standard (.number 2) (.boolean true) ∧
      equal.IsTrue .standard (.number 2) (.number 2) := by
  have hempty : Value.empty.IsOrdered := ⟨rfl, nofun⟩
  have htext : (Value.text ['A']).IsKeyed := ⟨⟨rfl, nofun⟩, nofun⟩
  have hboolean : (Value.boolean true).IsKeyed := ⟨⟨rfl, nofun⟩, nofun⟩
  have hint : (Value.int 2).IsKeyed := ⟨⟨rfl, nofun⟩, nofun⟩
  have hnumber : (Value.number 2).IsKeyed := by
    refine ⟨⟨rfl, fun x hx => ?_⟩, nofun⟩
    obtain rfl := Value.number.inj hx
    decide
  have hrow := (comparison_laws .standard).2 _ _ _ hnumber htext hboolean
  have hfirst := hrow.2.2.1 (by decide) (by decide)
  have hlast := hrow.2.2.2 (by decide) rfl
  exact ⟨(comparison_laws .standard).1 _ _ hempty htext.ordered, hfirst, hlast,
    hrow.1 hfirst hlast,
    ((comparison_laws .standard).2 _ _ _ hnumber hint hnumber).2.1 rfl rfl⟩

example (surroundings : Surroundings) :
    equal.apply surroundings (.number 0) .empty = .boolean true ∧
      equal.apply surroundings .empty (.text []) = .boolean true ∧
      equal.apply surroundings (.number 0) (.text []) = .boolean false :=
  ⟨rfl, rfl, rfl⟩

end Formula.Operator

end Worksheet
