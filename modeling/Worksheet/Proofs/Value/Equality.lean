import Worksheet.Proofs.Calendar.Days
import Worksheet.Proofs.Number.Double
import Worksheet.Proofs.Number.Equality
import Worksheet.Proofs.Reference.Order
import Worksheet.Store.RangeStore
import Worksheet.Value.Basic

/-!
# Equality and what is hashed

What is filed by its hash must be hashed alike when it is equal. Labels and
selections are: they are equal just when they are hashed by the same
(`Label.beq_iff_hashed`, `Selection.beq_iff_hashed`).

Values are equal just when they are hashed by the same and are not NaN, or are
the two zeros, which are equal and hashed by different bits
(`Value.beq_iff_hashed`). So equality of values is symmetric and transitive, but
not reflexive at NaN, and the hash follows it except between the zeros
(`Value.equality_and_hashing`).
-/

namespace Worksheet

theorem map_toNat_injective :
    Function.Injective (List.map fun c : Char => (c.toNat : ℤ)) :=
  List.map_injective_iff.2 fun _ _ h => Char.toNat_inj.1 (Int.ofNat.inj h)

/-! ## Labels -/

namespace Label

variable {a b : Label}

/-- **Labels are equal just when they are hashed by the same**, their spellings
without regard to case. -/
theorem beq_iff_hashed : (a == b) = true ↔ a.hashed = b.hashed :=
  beq_iff.trans map_toNat_injective.eq_iff.symm

/-- **Labels compare as equal just when they are.** -/
theorem compare_eq_iff : a.compare b = .eq ↔ (a == b) = true :=
  ⟨beq_of_compare_eq, fun h => by
    rw [compare_eq_compareOn, compareOn, beq_iff.1 h]
    exact Std.ReflCmp.compare_self⟩

end Label

/-! ## Cells and selections -/

theorem anchored_inj {index index' : ℕ} {anchor anchor' : Anchor}
    (h : [(index : ℤ), (anchor.rank : ℤ)] = [(index' : ℤ), (anchor'.rank : ℤ)]) :
    index = index' ∧ anchor = anchor' := by
  obtain ⟨hindex, hanchor⟩ := List.cons.inj h
  exact ⟨Int.ofNat.inj hindex, Anchor.rank_injective (Int.ofNat.inj (List.cons.inj hanchor).1)⟩

theorem Column.hashed_injective : Function.Injective Column.hashed := by
  rintro ⟨index, anchor⟩ ⟨index', anchor'⟩ h
  obtain ⟨rfl, rfl⟩ := anchored_inj h
  rfl

theorem Row.hashed_injective : Function.Injective Row.hashed := by
  rintro ⟨index, anchor⟩ ⟨index', anchor'⟩ h
  obtain ⟨rfl, rfl⟩ := anchored_inj h
  rfl

theorem Cell.hashed_injective : Function.Injective Cell.hashed := by
  rintro ⟨column, row⟩ ⟨column', row'⟩ h
  obtain ⟨hcolumn, hrow⟩ := List.append_inj h rfl
  obtain rfl := Column.hashed_injective hcolumn
  obtain rfl := Row.hashed_injective hrow
  rfl

theorem CellRange.hashed_injective : Function.Injective CellRange.hashed := by
  rintro ⟨first, last⟩ ⟨first', last'⟩ h
  obtain ⟨hfirst, hlast⟩ := List.append_inj h rfl
  obtain rfl := Cell.hashed_injective hfirst
  obtain rfl := Cell.hashed_injective hlast
  rfl

/-- Things told apart by what they are hashed by are equal just when they are
hashed by the same, behind the mark of their kind. -/
theorem beq_iff_cons_hashed {α : Type} [BEq α] [LawfulBEq α] {hashed : α → List ℤ}
    (h : Function.Injective hashed) (kind : ℤ) {a b : α} :
    (a == b) = true ↔ kind :: hashed a = kind :: hashed b := by
  rw [beq_iff_eq, List.cons.injEq, h.eq_iff, and_iff_right rfl]

/-- **Selections are equal just when they are hashed by the same.** The mark in
front tells the kinds apart. -/
theorem Selection.beq_iff_hashed {a b : Selection} : (a == b) = true ↔ a.hashed = b.hashed := by
  have different : ∀ {a b : Selection}, (a == b) = false → a.hashed.head? ≠ b.hashed.head? →
      ((a == b) = true ↔ a.hashed = b.hashed) := fun hbeq hhead =>
    iff_of_false (Bool.eq_false_iff.1 hbeq) fun h => hhead (congrArg List.head? h)
  cases a with
  | cell a =>
    cases b with
    | cell b => exact beq_iff_cons_hashed Cell.hashed_injective 0
    | _ => exact different rfl (by simp [hashed])
  | range a =>
    cases b with
    | range b => exact beq_iff_cons_hashed CellRange.hashed_injective 1
    | _ => exact different rfl (by simp [hashed])
  | column a =>
    cases b with
    | column b => exact beq_iff_cons_hashed Column.hashed_injective 2
    | _ => exact different rfl (by simp [hashed])
  | row a =>
    cases b with
    | row b => exact beq_iff_cons_hashed Row.hashed_injective 3
    | _ => exact different rfl (by simp [hashed])
  | label a =>
    cases b with
    | label b => exact Label.beq_iff_hashed.trans (List.cons_inj_right 4).symm
    | _ => exact different rfl (by simp [hashed])

/-! ## Values -/

theorem TimeOfDay.hashed_injective : Function.Injective TimeOfDay.hashed := by
  rintro ⟨seconds, nanos, hseconds, hnanos⟩ ⟨seconds', nanos', hseconds', hnanos'⟩ h
  obtain ⟨heq, hrest⟩ := List.cons.inj h
  obtain rfl := Int.ofNat.inj heq
  obtain rfl := Int.ofNat.inj (List.cons.inj hrest).1
  rfl

theorem DateTime.hashed_injective : Function.Injective DateTime.hashed := by
  rintro ⟨date, time⟩ ⟨date', time'⟩ h
  obtain ⟨hdate, htime⟩ := List.cons.inj h
  obtain rfl := Date.dayNumber_injective hdate
  obtain rfl := TimeOfDay.hashed_injective htime
  rfl

theorem CellError.hashed_injective : Function.Injective CellError.hashed := by
  have hall : ∀ kind : CellErrorKind, kind ∈ CellErrorKind.all := by
    intro kind
    cases kind <;> decide
  rintro ⟨kind, explanation⟩ ⟨kind', explanation'⟩ h
  obtain ⟨hkind, hexplanation⟩ := List.cons.inj h
  obtain rfl := (List.idxOf_inj (hall kind)).1 (Int.ofNat.inj hkind)
  cases explanation with
  | none =>
    cases explanation' with
    | none => rfl
    | some => cases hexplanation
  | some explanation =>
    cases explanation' with
    | none => cases hexplanation
    | some explanation' =>
      obtain rfl := map_toNat_injective (List.cons.inj hexplanation).2
      rfl

namespace Value

variable {a b c : Value}

/-- Whether a value is a number. -/
def IsNumber (value : Value) : Prop :=
  ∃ v : Float, value = .number v

/-- The number that equals nothing. -/
def IsNaN (value : Value) : Prop :=
  ∃ v : Float, value = .number v ∧ v.isNaN = true

/-- The two zeros, in either order: equal, and of different bits. -/
def OppositeZeros (a b : Value) : Prop :=
  ∃ v w : Float, a = .number v ∧ b = .number w ∧ Number.IsZero v ∧ Number.IsZero w ∧ v ≠ w

/-- **Other values than numbers are equal just when they are hashed by the
same.** -/
theorem beq_iff_hashed_of_not_isNumber (h : ¬a.IsNumber) :
    (a == b) = true ↔ a.hashed = b.hashed := by
  have different : ∀ {a b : Value}, (a == b) = false → a.hashed.head? ≠ b.hashed.head? →
      ((a == b) = true ↔ a.hashed = b.hashed) := fun hbeq hhead =>
    iff_of_false (Bool.eq_false_iff.1 hbeq) fun h => hhead (congrArg List.head? h)
  -- the tag in front keeps the kinds apart; within a kind the hashed words tell
  -- the values apart
  cases a with
  | int a =>
    cases b with
    | int b =>
      exact beq_iff_cons_hashed List.singleton_injective 0
    | _ => exact different rfl (by simp [hashed])
  | number v => exact absurd ⟨v, rfl⟩ h
  | text a =>
    cases b with
    | text b => exact beq_iff_cons_hashed map_toNat_injective 2
    | _ => exact different rfl (by simp [hashed])
  | boolean a =>
    cases b with
    | boolean b => cases a <;> cases b <;> decide
    | _ => exact different rfl (by simp [hashed])
  | date a =>
    cases b with
    | date b =>
      exact beq_iff_cons_hashed (List.singleton_injective.comp Date.dayNumber_injective) 4
    | _ => exact different rfl (by simp [hashed])
  | dateTime a =>
    cases b with
    | dateTime b => exact beq_iff_cons_hashed DateTime.hashed_injective 5
    | _ => exact different rfl (by simp [hashed])
  | time a =>
    cases b with
    | time b => exact beq_iff_cons_hashed TimeOfDay.hashed_injective 6
    | _ => exact different rfl (by simp [hashed])
  | selection a =>
    cases b with
    | selection b => exact Selection.beq_iff_hashed.trans (List.cons_inj_right 7).symm
    | _ => exact different rfl (by simp [hashed])
  | error a =>
    cases b with
    | error b => exact beq_iff_cons_hashed CellError.hashed_injective 8
    | _ => exact different rfl (by simp [hashed])
  | empty =>
    cases b with
    | empty => exact iff_of_true rfl rfl
    | _ => exact different rfl (by simp [hashed])

theorem eq_of_hashed_number {v : Float} (h : a.hashed = (number v).hashed) : a = number v := by
  cases a with
  | number w =>
    have hbits := (List.cons.inj (List.cons.inj h).2).1
    exact congrArg number (Number.eq_of_toBits (Int.ofNat.inj hbits))
  | _ => simp [hashed] at h

@[simp] theorem isNaN_number {v : Float} : (number v).IsNaN ↔ v.isNaN = true := by
  constructor
  · rintro ⟨w, hw, hnan⟩
    cases hw
    exact hnan
  · exact fun hnan => ⟨v, rfl, hnan⟩

theorem isNaN_eq_false_of_isZero {v : Float} (h : Number.IsZero v) : v.isNaN = false := by
  rcases h with rfl | rfl <;> rfl

theorem number_beq_iff {v w : Float} :
    (number v == number w) = true ↔
      ¬(number v).IsNaN ∧ number v = number w ∨ OppositeZeros (number v) (number w) := by
  refine (Number.beq_eq_true_iff (v := v) (w := w)).trans ?_
  rw [isNaN_number, Bool.not_eq_true, Value.number.injEq]
  constructor
  · rintro (hsame | ⟨hv, hw⟩)
    · exact .inl hsame
    · by_cases heq : v = w
      · exact .inl ⟨isNaN_eq_false_of_isZero hv, heq⟩
      · exact .inr ⟨v, w, rfl, rfl, hv, hw, heq⟩
  · rintro (hsame | ⟨v', w', hv', hw', hv, hw, -⟩)
    · exact .inl hsame
    · cases hv'
      cases hw'
      exact .inr ⟨hv, hw⟩

/-- **Values are equal just when** they are hashed by the same and are not NaN,
or are the two zeros. -/
theorem beq_iff_hashed :
    (a == b) = true ↔ ¬a.IsNaN ∧ a.hashed = b.hashed ∨ OppositeZeros a b := by
  by_cases ha : a.IsNumber
  · obtain ⟨v, rfl⟩ := ha
    have hhashed : (number v).hashed = b.hashed ↔ number v = b :=
      ⟨fun h => (eq_of_hashed_number h.symm).symm, congrArg hashed⟩
    rw [hhashed]
    cases b with
    | number w => exact number_beq_iff
    | _ =>
      refine iff_of_false Bool.false_ne_true ?_
      rintro (⟨-, h⟩ | ⟨_, _, -, h, -⟩) <;> cases h
  · have hnan : ¬a.IsNaN := fun ⟨v, hv, _⟩ => ha ⟨v, hv⟩
    have hzeros : ¬OppositeZeros a b := fun ⟨v, _, hv, _⟩ => ha ⟨v, hv⟩
    rw [beq_iff_hashed_of_not_isNumber ha, and_iff_right hnan, or_iff_left hzeros]

/-! ## An equivalence, but for NaN -/

theorem isNaN_congr (h : a.hashed = b.hashed) : a.IsNaN ↔ b.IsNaN := by
  constructor
  · rintro ⟨v, rfl, hnan⟩
    exact ⟨v, eq_of_hashed_number h.symm, hnan⟩
  · rintro ⟨v, rfl, hnan⟩
    exact ⟨v, eq_of_hashed_number h, hnan⟩

theorem OppositeZeros.symm (h : OppositeZeros a b) : OppositeZeros b a := by
  obtain ⟨v, w, hv, hw, hzero, hzero', hne⟩ := h
  exact ⟨w, v, hw, hv, hzero', hzero, hne.symm⟩

theorem OppositeZeros.not_isNaN (h : OppositeZeros a b) : ¬a.IsNaN := by
  obtain ⟨v, w, rfl, rfl, hzero, -⟩ := h
  rw [isNaN_number, isNaN_eq_false_of_isZero hzero]
  exact Bool.false_ne_true

/-- The two zeros are hashed by different bits. -/
theorem OppositeZeros.hashed_ne (h : OppositeZeros a b) : a.hashed ≠ b.hashed := by
  obtain ⟨v, w, rfl, rfl, -, -, hne⟩ := h
  exact fun heq => hne (Value.number.inj (eq_of_hashed_number heq))

/-- What is hashed as a zero is that zero. -/
theorem OppositeZeros.congr_left (h : OppositeZeros b c) (heq : a.hashed = b.hashed) :
    OppositeZeros a c := by
  obtain ⟨v, w, rfl, hrest⟩ := h
  exact ⟨v, w, eq_of_hashed_number heq, hrest⟩

/-- There are no three zeros. -/
theorem OppositeZeros.eq_of_trans (h : OppositeZeros a b) (h' : OppositeZeros b c) : a = c := by
  obtain ⟨v, w, rfl, rfl, hv, hw, hne⟩ := h
  obtain ⟨w', x, hw', rfl, -, hx, hne'⟩ := h'
  cases hw'
  rcases hw with rfl | rfl
  · rw [hv.resolve_left hne, hx.resolve_left hne'.symm]
  · rw [hv.resolve_right hne, hx.resolve_right hne'.symm]

theorem symm_of_beq (h : (a == b) = true) : (b == a) = true := by
  rcases beq_iff_hashed.1 h with ⟨hnan, heq⟩ | hzeros
  · exact beq_iff_hashed.2 (.inl ⟨mt (isNaN_congr heq).2 hnan, heq.symm⟩)
  · exact beq_iff_hashed.2 (.inr hzeros.symm)

theorem trans_of_beq (h : (a == b) = true) (h' : (b == c) = true) : (a == c) = true := by
  rw [beq_iff_hashed] at h h' ⊢
  rcases h with ⟨hnan, heq⟩ | hzeros <;> rcases h' with ⟨-, heq'⟩ | hzeros'
  · exact .inl ⟨hnan, heq.trans heq'⟩
  · exact .inr (hzeros'.congr_left heq)
  · exact .inr (hzeros.symm.congr_left heq'.symm).symm
  · exact .inl ⟨hzeros.not_isNaN, congrArg hashed (hzeros.eq_of_trans hzeros')⟩

/-- **Nothing but NaN is unequal to itself.** -/
theorem beq_self_iff : (a == a) = true ↔ ¬a.IsNaN := by
  rw [beq_iff_hashed]
  constructor
  · rintro (⟨hnan, -⟩ | hzeros)
    · exact hnan
    · exact hzeros.not_isNaN
  · exact fun hnan => .inl ⟨hnan, rfl⟩

/-- **The hash follows equality**, but for the zeros. -/
theorem hashed_eq_iff_of_beq (h : (a == b) = true) : a.hashed = b.hashed ↔ ¬OppositeZeros a b := by
  constructor
  · exact fun heq hzeros => hzeros.hashed_ne heq
  · intro hzeros
    exact ((beq_iff_hashed.1 h).resolve_right hzeros).2

/-- **NaN is never found** where ranges are looked up by the values they hold,
even if it was filed. -/
theorem rangesOf_of_isNaN (h : a.IsNaN) (holders : Holders Value) : holders.rangesOf a = [] := by
  have hnone : holders.find? (fun entry => Holders.isSame entry.1 a) = none := by
    refine List.find?_eq_none.2 fun entry _ hsame => ?_
    have hbeq : (entry.1 == a) = true := (Bool.and_eq_true_iff.1 hsame).2
    exact beq_self_iff.1 (trans_of_beq (symm_of_beq hbeq) hbeq) h
  rw [Holders.rangesOf, hnone]
  rfl

/-- Away from the zeros values are filed under one when they are equal.
`Holders.isSame` asks for the same hash as well. -/
theorem isSame_eq_beq (h : ¬OppositeZeros a b) : Holders.isSame a b = (a == b) := by
  unfold Holders.isSame
  cases hbeq : a == b with
  | false => exact Bool.and_false _
  | true =>
    have hhash : hash a = hash b :=
      congrArg (fun fed : List ℤ => hash fed) ((hashed_eq_iff_of_beq hbeq).2 h)
    rw [hhash, beq_self_eq_true, Bool.and_true]

/-- **Equality and what is hashed.** Equality of values is symmetric and
transitive, and reflexive everywhere but at NaN; equal values are hashed by the
same, except for the zeros of different signs. So values are looked up by
equality in the file of holders as long as no two such zeros meet, and NaN is
never found. Equality of selections and of labels, labels without regard to
case, is an equivalence that the hash follows; and labels are in a total order
in which just the equal ones compare as equal. -/
theorem equality_and_hashing (a b c : Value) (holders : Holders Value) (s t : Selection)
    (l m n : Label) :
    (((a == b) = true → (b == a) = true) ∧
      ((a == b) = true → (b == c) = true → (a == c) = true) ∧
      ((a == a) = true ↔ ¬a.IsNaN) ∧
      ((a == b) = true → (a.hashed = b.hashed ↔ ¬OppositeZeros a b)) ∧
      (¬OppositeZeros a b → Holders.isSame a b = (a == b)) ∧
      (a.IsNaN → holders.rangesOf a = [])) ∧
    ((Equivalence fun s t : Selection => (s == t) = true) ∧
      ((s == t) = true → s.hashed = t.hashed)) ∧
    ((Equivalence fun l m : Label => (l == m) = true) ∧
      ((l == m) = true ↔ l.fold = m.fold) ∧ ((l == m) = true → l.hashed = m.hashed)) ∧
    l.compare m = (m.compare l).swap ∧
      ((l.compare m).isLE = true → (m.compare n).isLE = true → (l.compare n).isLE = true) ∧
      (l.compare m = .eq ↔ (l == m) = true) := by
  have hequivalence : ∀ {α : Type} [BEq α] {hashed : α → List ℤ},
      (∀ {a b}, (a == b) = true ↔ hashed a = hashed b) →
        Equivalence fun a b : α => (a == b) = true := fun h =>
    ⟨fun _ => h.2 rfl, fun hab => h.2 (h.1 hab).symm,
      fun hab hbc => h.2 ((h.1 hab).trans (h.1 hbc))⟩
  refine ⟨⟨symm_of_beq, trans_of_beq, beq_self_iff, hashed_eq_iff_of_beq, isSame_eq_beq, fun hnan =>
      rangesOf_of_isNaN hnan holders⟩,
    ⟨hequivalence Selection.beq_iff_hashed, Selection.beq_iff_hashed.1⟩,
    ⟨hequivalence Label.beq_iff_hashed, Label.beq_iff, Label.beq_iff_hashed.1⟩, ?_, ?_, ?_⟩
  · exact Std.OrientedCmp.eq_swap
  · exact Std.TransCmp.isLE_trans
  · exact Label.compare_eq_iff

/-- The two zeros are equal both ways and hashed by different bits, NaN is not
found, and a label is the same in capitals. -/
theorem equality_and_hashing_zeros :
    (number 0 == number (-0)) = true ∧ (number (-0) == number 0) = true ∧
      (number 0).hashed ≠ (number (-0)).hashed ∧
      (∀ ranges, Holders.rangesOf [(number (0 / 0), ranges)] (number (0 / 0)) = []) ∧
      ∃ l m : Label, l.text = "Total".toList ∧ m.text = "TOTAL".toList ∧ (l == m) = true ∧
        l.hashed = m.hashed ∧ l.compare m = .eq := by
  let l : Label := ⟨"Total".toList, by decide⟩
  let m : Label := ⟨"TOTAL".toList, by decide⟩
  obtain ⟨⟨hsymm, -, -, hhashed, -⟩, -, ⟨-, hfold, hlabel⟩, -, -, hcompare⟩ :=
    equality_and_hashing (number 0) (number (-0)) (number 0) [] (.label l) (.label m) l m l
  have hnan : ∀ ranges, Holders.rangesOf [(number (0 / 0), ranges)] (number (0 / 0)) = [] := by
    intro ranges
    obtain ⟨⟨-, -, -, -, -, hnan⟩, -⟩ := equality_and_hashing (number (0 / 0)) (number 0) (number 0)
      [(number (0 / 0), ranges)] (.label l) (.label m) l m l
    exact hnan ⟨0 / 0, rfl, by decide⟩
  have hzeros : (number 0 == number (-0)) = true := rfl
  have hopposite : OppositeZeros (number 0) (number (-0)) :=
    ⟨0, -0, rfl, rfl, .inl rfl, .inr rfl, by decide⟩
  have hequal : (l == m) = true := hfold.2 (by decide)
  exact ⟨hzeros, hsymm hzeros, fun heq => (hhashed hzeros).1 heq hopposite, hnan, l, m, rfl, rfl,
    hequal, hlabel hequal, hcompare.2 hequal⟩

/-- NaN is unequal to itself, and zeros of different signs are equal but hashed
by different bits. -/
theorem not_reflexive_nan_zeros :
    (number (0 / 0) == number (0 / 0)) = false ∧
      (number 0 == number (-0)) = true ∧ (number 0).hashed ≠ (number (-0)).hashed := by
  decide

end Value

end Worksheet
