import Worksheet.Store.RangeStore

/-!
# Which ranges hold a value

A store files values with the ranges that hold them, in the order in which they
got them. The values are compared by an equality of their own, which is an
equivalence and agrees with the hash but need not be identity: to be filed under
one value is then to be equal to it (`Holders.isSame_eq`).

A file is `Holders.Sound` when no two of its values are equal and none is kept
without ranges. What the two changes do to a sound file is said by looking
values up: a range that comes to a value goes to the end of its ranges and
touches no other value (`Holders.rangesOf_insert`), and one that is taken from
it goes out of its ranges only (`Holders.rangesOf_erase`).
-/

namespace Worksheet

variable {V : Type} [BEq V] [Hashable V]

namespace Holders

/-- The file with an entry in front. -/
theorem rangesOf_cons (entry : V × List CellRange) (holders : Holders V)
    (value : V) :
    rangesOf (entry :: holders) value
      = if isSame entry.1 value then entry.2 else rangesOf holders value := by
  unfold rangesOf
  cases h : isSame entry.1 value <;> simp [h]

variable [EquivBEq V] [LawfulHashable V]

omit [EquivBEq V] in
/-- **Values are filed under one exactly when they are equal.** A file asks for
the hash and the equality; where equal values have equal hashes the first
question is idle. -/
@[simp] theorem isSame_eq (a b : V) : isSame a b = (a == b) := by
  unfold isSame
  cases h : a == b with
  | false => rw [Bool.and_false]
  | true => rw [LawfulHashable.hash_eq a b h, beq_self_eq_true, Bool.and_self]

/-- **A range is added to one value only**, at the end if it is not there. A
value that is not in the file comes to its end with this range alone. -/
theorem rangesOf_insert (holders : Holders V) (value : V) (range : CellRange)
    (other : V) :
    rangesOf (insert value range holders) other
      = if (value == other) && !(rangesOf holders value).contains range
        then rangesOf holders other ++ [range] else rangesOf holders other := by
  induction holders with
  | nil => cases h : value == other <;> simp [insert, rangesOf, h]
  | cons entry holders ih =>
    cases hentry : entry.1 == value with
    | true =>
      have hother : (entry.1 == other) = (value == other) := BEq.congr_left hentry
      by_cases hmem : range ∈ entry.2 <;> cases h : value == other <;>
        simp [insert, rangesOf_cons, hentry, hother, hmem, h]
    | false =>
      cases h : value == other with
      | true =>
        have hother : (entry.1 == other) = false := by
          rw [← BEq.congr_right h, hentry]
        simp only [insert, rangesOf_cons, isSame_eq, hentry, hother,
          Bool.false_eq_true, if_false, ih, h]
      | false =>
        simp [insert, rangesOf_cons, hentry, ih, h]

omit [EquivBEq V] [LawfulHashable V] in
theorem mem_insert {holders : Holders V} {value : V} {range : CellRange}
    {entry : V × List CellRange} (h : entry ∈ insert value range holders) :
    entry.2 ≠ [] ∧ entry.1 = value
      ∨ ∃ entry' ∈ holders, entry.1 = entry'.1 ∧ (entry'.2 ≠ [] → entry.2 ≠ []) := by
  induction holders with
  | nil =>
    obtain rfl := List.mem_singleton.1 h
    exact Or.inl ⟨List.cons_ne_nil _ _, rfl⟩
  | cons head holders ih =>
    unfold insert at h
    split at h
    · rcases List.mem_cons.1 h with rfl | h
      · refine Or.inr ⟨head, List.mem_cons_self, ?_⟩
        split <;> simp
      · exact Or.inr ⟨entry, List.mem_cons_of_mem _ h, rfl, id⟩
    · rcases List.mem_cons.1 h with rfl | h
      · exact Or.inr ⟨entry, List.mem_cons_self, rfl, id⟩
      · rcases ih h with h | ⟨entry', hentry', h⟩
        · exact Or.inl h
        · exact Or.inr ⟨entry', List.mem_cons_of_mem _ hentry', h⟩

omit [EquivBEq V] in
theorem distinct_insert {holders : Holders V} {value : V} {range : CellRange}
    (h : holders.Pairwise fun a b => (a.1 == b.1) = false) :
    (insert value range holders).Pairwise fun a b => (a.1 == b.1) = false := by
  induction holders with
  | nil => exact List.pairwise_singleton _ _
  | cons head holders ih =>
    obtain ⟨hhead, hholders⟩ := List.pairwise_cons.1 h
    unfold insert
    split
    · refine List.pairwise_cons.2 ⟨fun entry hentry => ?_, hholders⟩
      split <;> exact hhead entry hentry
    · rename_i hvalue
      refine List.pairwise_cons.2 ⟨fun entry hentry => ?_, ih hholders⟩
      rcases mem_insert hentry with ⟨-, heq⟩ | ⟨entry', hentry', heq, -⟩
      · rw [heq]
        simpa using hvalue
      · rw [heq]
        exact hhead entry' hentry'

omit [EquivBEq V] in
theorem rangesOf_eq_nil {holders : Holders V} {value : V}
    (h : ∀ entry ∈ holders, (entry.1 == value) = false) :
    rangesOf holders value = [] := by
  have : holders.find? (fun entry => isSame entry.1 value) = none :=
    List.find?_eq_none.2 fun entry hentry => by simp [h entry hentry]
  rw [rangesOf, this]
  rfl

omit [EquivBEq V] [LawfulHashable V] in
theorem mem_erase {holders : Holders V} {value : V} {range : CellRange}
    {entry : V × List CellRange} (h : entry ∈ erase value range holders) :
    ∃ entry' ∈ holders, entry.1 = entry'.1 ∧ (entry'.2 ≠ [] → entry.2 ≠ []) := by
  induction holders with
  | nil => cases h
  | cons head holders ih =>
    unfold erase at h
    simp only at h
    split at h
    · split at h
      · exact ⟨entry, List.mem_cons_of_mem _ h, rfl, id⟩
      · rename_i hleft
        rcases List.mem_cons.1 h with rfl | h
        · exact ⟨head, List.mem_cons_self, rfl, fun _ => by simpa using hleft⟩
        · exact ⟨entry, List.mem_cons_of_mem _ h, rfl, id⟩
    · rcases List.mem_cons.1 h with rfl | h
      · exact ⟨entry, List.mem_cons_self, rfl, id⟩
      · obtain ⟨entry', hentry', h⟩ := ih h
        exact ⟨entry', List.mem_cons_of_mem _ hentry', h⟩

omit [EquivBEq V] [LawfulHashable V] in
theorem distinct_erase {holders : Holders V} {value : V} {range : CellRange}
    (h : holders.Pairwise fun a b => (a.1 == b.1) = false) :
    (erase value range holders).Pairwise fun a b => (a.1 == b.1) = false := by
  induction holders with
  | nil => exact List.Pairwise.nil
  | cons head holders ih =>
    obtain ⟨hhead, hholders⟩ := List.pairwise_cons.1 h
    unfold erase
    simp only
    split
    · split
      · exact hholders
      · exact List.pairwise_cons.2 ⟨hhead, hholders⟩
    · refine List.pairwise_cons.2 ⟨fun entry hentry => ?_, ih hholders⟩
      obtain ⟨entry', hentry', heq, -⟩ := mem_erase hentry
      rw [heq]
      exact hhead entry' hentry'

/-- **A range is taken away from one value only.** The values of the file have
to be different here: an entry whose last range goes is dropped, and another
entry with an equal value would come to light. -/
theorem rangesOf_erase {holders : Holders V}
    (h : holders.Pairwise fun a b => (a.1 == b.1) = false) (value : V)
    (range : CellRange) (other : V) :
    rangesOf (erase value range holders) other
      = if value == other then (rangesOf holders other).filter (· != range)
        else rangesOf holders other := by
  induction holders with
  | nil => cases h' : value == other <;> simp [erase, rangesOf]
  | cons head holders ih =>
    obtain ⟨hhead, hholders⟩ := List.pairwise_cons.1 h
    unfold erase
    simp only [isSame_eq]
    cases hvalue : head.1 == value with
    | true =>
      have hother : (head.1 == other) = (value == other) := BEq.congr_left hvalue
      -- one value has one entry: nothing behind the head holds it too
      have hafter : (value == other) = true → rangesOf holders other = [] := by
        intro h'
        refine rangesOf_eq_nil fun entry hentry => ?_
        rw [← BEq.congr_right (hother.trans h'), BEq.comm]
        exact hhead entry hentry
      simp only [if_true]
      split
      · rename_i hleft
        cases h' : value == other with
        | true =>
          rw [if_pos rfl, rangesOf_cons, isSame_eq, hother, h', if_pos rfl,
            hafter h', List.isEmpty_iff.1 hleft]
        | false => simp [rangesOf_cons, hother, h']
      · simp only [rangesOf_cons, isSame_eq, hother]
        split <;> rfl
    | false =>
      simp only [Bool.false_eq_true, if_false, rangesOf_cons, isSame_eq,
        ih hholders]
      cases h' : value == other with
      | true =>
        have hother : (head.1 == other) = false := by
          rw [← BEq.congr_right h', hvalue]
        simp [hother]
      | false => simp

/-! ## Sound files

Both conditions are needed for `rangesOf_erase`. An operation keeps them, since
a value that is new is put at the end and an entry without ranges is dropped at
once. -/

/-- **A sound file**: its values are pairwise different, and none is kept
without ranges. -/
structure Sound (holders : Holders V) : Prop where
  /-- No two values are equal. -/
  distinct : holders.Pairwise fun a b => (a.1 == b.1) = false
  /-- Every value has ranges. -/
  ne_nil : ∀ entry ∈ holders, entry.2 ≠ []

namespace Sound

variable {holders : Holders V}

omit [Hashable V] [EquivBEq V] [LawfulHashable V] in
theorem nil : Sound ([] : Holders V) where
  distinct := List.Pairwise.nil
  ne_nil := fun _ h => absurd h List.not_mem_nil

omit [EquivBEq V] in
theorem insert (h : Sound holders) (value : V) (range : CellRange) :
    Sound (Holders.insert value range holders) where
  distinct := distinct_insert h.distinct
  ne_nil := fun entry hentry => by
    rcases mem_insert hentry with ⟨hne, -⟩ | ⟨entry', hentry', -, hne⟩
    · exact hne
    · exact hne (h.ne_nil entry' hentry')

omit [EquivBEq V] [LawfulHashable V] in
theorem erase (h : Sound holders) (value : V) (range : CellRange) :
    Sound (Holders.erase value range holders) where
  distinct := distinct_erase h.distinct
  ne_nil := fun entry hentry => by
    obtain ⟨entry', hentry', -, hne⟩ := mem_erase hentry
    exact hne (h.ne_nil entry' hentry')

end Sound

end Holders

end Worksheet
