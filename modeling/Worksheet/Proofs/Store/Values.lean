import Worksheet.Store.RangeStore

/-!
# Lists of different values

A range holds each of its values once, where values are told apart by an
equality of their own: an equivalence, which need not be identity. Such a list
is `Distinct`. Adding a value that is not there keeps it so, and so do taking
one away and putting a new one in the place of an old one; and what each of the
three does to membership is what it does to a set.
-/

namespace Worksheet

variable {V : Type} [BEq V]

/-- No two values are equal, by an equality that need not be identity. For
identity this is `List.Nodup`. -/
def Distinct (values : List V) : Prop :=
  values.Pairwise fun a b => (a == b) = false

theorem Distinct.nil : Distinct ([] : List V) :=
  List.Pairwise.nil

theorem distinct_cons {value : V} {values : List V} :
    Distinct (value :: values)
      ↔ (∀ other ∈ values, (value == other) = false) ∧ Distinct values :=
  List.pairwise_cons

theorem Distinct.filter {values : List V} (h : Distinct values) (p : V → Bool) :
    Distinct (values.filter p) :=
  List.Pairwise.filter p h

variable [EquivBEq V]

theorem contains_congr (values : List V) {value value' : V}
    (h : (value == value') = true) :
    values.contains value = values.contains value' := by
  rw [List.contains_eq_any_beq, List.contains_eq_any_beq]
  exact congrArg values.any (funext fun other => BEq.congr_left h)

omit [EquivBEq V] in
theorem beq_eq_false_of_mem {values : List V} {value other : V}
    (h : values.contains value = false) (hother : other ∈ values) :
    (value == other) = false := by
  rw [List.contains_eq_any_beq, List.any_eq_false] at h
  simpa using h other hother

/-- **Taking a value away leaves the others**, and takes all that are equal to
it. -/
theorem contains_filter_bne (values : List V) (value other : V) :
    (values.filter (· != value)).contains other
      = (values.contains other && !(other == value)) := by
  rw [List.contains_eq_any_beq, List.contains_eq_any_beq, List.any_filter]
  induction values with
  | nil => rfl
  | cons head values ih =>
    rw [List.any_cons, List.any_cons, ih]
    cases hhead : other == head with
    | false => simp
    | true =>
      rw [BEq.congr_left hhead]
      cases h : head == value <;> simp [bne, h]

theorem Distinct.append {values : List V} (h : Distinct values) {value : V}
    (hnew : values.contains value = false) : Distinct (values ++ [value]) := by
  refine List.pairwise_append.2 ⟨h, List.pairwise_singleton _ _, ?_⟩
  intro other hother last hlast
  rw [List.mem_singleton.1 hlast, BEq.comm]
  exact beq_eq_false_of_mem hnew hother

/-- Of different values at most one equals a given one, so taking away the first
that does is taking away all that do. -/
theorem Distinct.erase_eq {values : List V} (h : Distinct values) (value : V) :
    values.erase value = values.filter (· != value) := by
  induction values with
  | nil => rfl
  | cons head values ih =>
    obtain ⟨hhead, hvalues⟩ := distinct_cons.1 h
    rw [List.erase_cons]
    cases hvalue : head == value with
    | true =>
      have hrest : values.filter (· != value) = values := by
        refine List.filter_eq_self.2 fun other hother => ?_
        rw [bne, ← BEq.congr_right hvalue, BEq.comm, hhead other hother]
        rfl
      simp [bne, hvalue]
      exact hrest.symm
    | false => simp [bne, hvalue, ih hvalues]

/-- Of different values exactly one is equal to a value of the list. -/
theorem Distinct.countP_beq {values : List V} (h : Distinct values) {value : V}
    (hmem : values.contains value = true) : values.countP (· == value) = 1 := by
  induction values with
  | nil => cases hmem
  | cons head values ih =>
    obtain ⟨hhead, hvalues⟩ := distinct_cons.1 h
    rw [List.countP_cons]
    cases hvalue : head == value with
    | true =>
      have hnone : values.countP (· == value) = 0 := by
        refine List.countP_eq_zero.2 fun other hother => ?_
        rw [BEq.comm, ← BEq.congr_left hvalue, hhead other hother]
        exact Bool.false_ne_true
      rw [hnone, if_pos rfl]
    | false =>
      rw [List.contains_cons, BEq.comm, hvalue, Bool.false_or] at hmem
      rw [ih hvalues hmem, if_neg Bool.false_ne_true]

theorem find?_key_of_mem {α : Type} {key : α → V} {entries : List α}
    (h : entries.Pairwise fun a b => (key a == key b) = false) {entry : α}
    (hentry : entry ∈ entries) :
    entries.find? (fun other => key other == key entry) = some entry := by
  induction entries with
  | nil => cases hentry
  | cons head entries ih =>
    obtain ⟨hhead, hentries⟩ := List.pairwise_cons.1 h
    rw [List.find?_cons]
    rcases List.mem_cons.1 hentry with rfl | hentry
    · rw [BEq.rfl]
    · rw [hhead entry hentry]
      exact ih hentries hentry

/-- **Putting a value in the place of another** does to membership what removing
the one and inserting the other does. The old value has to be there, as
otherwise nothing is put anywhere. -/
theorem Distinct.contains_replace {values : List V} (h : Distinct values)
    {new old : V} (hold : values.contains old = true) (other : V) :
    (values.replace old new).contains other
      = ((values.contains other && !(other == old)) || other == new) := by
  induction values with
  | nil => cases hold
  | cons head values ih =>
    obtain ⟨hhead, hvalues⟩ := distinct_cons.1 h
    rw [List.replace_cons]
    cases hvalue : old == head with
    | true =>
      -- behind the first equal of the old value there is no other
      have hrest : values.contains other = (values.contains other && !(other == old)) := by
        cases hother : other == old with
        | false => simp
        | true =>
          rw [contains_congr values (BEq.trans hother hvalue),
            List.contains_eq_any_beq, List.any_eq_false.2 fun value hmem => ?_]
          · rfl
          · simpa using hhead value hmem
      simp only [List.contains_cons]
      rw [hrest, ← BEq.congr_right hvalue]
      cases other == new <;> cases other == old <;> simp
    | false =>
      have hold' : values.contains old = true := by
        rw [List.contains_cons, hvalue, Bool.false_or] at hold
        exact hold
      simp only [List.contains_cons]
      rw [ih hvalues hold']
      cases hother : other == head with
      | false => simp
      | true =>
        rw [BEq.congr_left hother, BEq.comm, hvalue]
        simp

omit [EquivBEq V] in
theorem mem_or_eq_of_mem_replace {values : List V} {new old value : V}
    (h : value ∈ values.replace old new) : value ∈ values ∨ value = new := by
  induction values with
  | nil => cases h
  | cons head values ih =>
    rw [List.replace_cons] at h
    split at h
    · rcases List.mem_cons.1 h with rfl | h
      · exact Or.inr rfl
      · exact Or.inl (List.mem_cons_of_mem _ h)
    · rcases List.mem_cons.1 h with rfl | h
      · exact Or.inl List.mem_cons_self
      · exact (ih h).imp_left (List.mem_cons_of_mem _)

omit [EquivBEq V] in
/-- Putting a value in the place of another does not show in a choice that takes
neither. -/
theorem filter_replace {p : V → Bool} {new old : V} (hnew : p new = false)
    (hold : ∀ value, (old == value) = true → p value = false) (values : List V) :
    (values.replace old new).filter p = values.filter p := by
  induction values with
  | nil => rfl
  | cons head values ih =>
    rw [List.replace_cons]
    split
    · rename_i hhead
      rw [List.filter_cons, List.filter_cons, hnew, hold head hhead]
      rfl
    · rw [List.filter_cons, List.filter_cons, ih]

theorem Distinct.replace {values : List V} (h : Distinct values) {new old : V}
    (hnew : values.contains new = false) : Distinct (values.replace old new) := by
  induction values with
  | nil => exact h
  | cons head values ih =>
    obtain ⟨hhead, hvalues⟩ := distinct_cons.1 h
    have hnew' : ∀ other ∈ head :: values, (new == other) = false :=
      fun other => beq_eq_false_of_mem hnew
    rw [List.replace_cons]
    cases hvalue : old == head with
    | true =>
      exact distinct_cons.2 ⟨fun other hother =>
        hnew' other (List.mem_cons_of_mem _ hother), hvalues⟩
    | false =>
      have hrest : values.contains new = false := by
        rw [List.contains_cons] at hnew
        exact (Bool.or_eq_false_iff.1 hnew).2
      refine distinct_cons.2 ⟨fun other hother => ?_, ih hvalues hrest⟩
      rcases mem_or_eq_of_mem_replace hother with hother | rfl
      · exact hhead other hother
      · rw [BEq.comm]
        exact hnew' head List.mem_cons_self

/-! ## First occurrences

Values are collected by a loop that asks of each whether it was met before, by
the equality of the values. What it comes to is `List.eraseDups`. -/

omit [EquivBEq V] in
/-- **Collecting values that were not met before** gives the first occurrences
of all values. The induction carries what was found before, whose values are
left out. -/
theorem foldl_append_new (values found : List V) :
    values.foldl
        (fun found value => if found.contains value then found else found ++ [value]) found
      = found ++ (values.filter fun value => !found.contains value).eraseDups := by
  induction values generalizing found with
  | nil => exact (List.append_nil found).symm
  | cons head values ih =>
    rw [List.foldl_cons]
    cases hhead : found.contains head with
    | true =>
      rw [if_pos rfl, ih, List.filter_cons_of_neg (by rw [hhead]; exact Bool.false_ne_true)]
    | false =>
      rw [if_neg Bool.false_ne_true, ih, List.filter_cons_of_pos (by rw [hhead]; rfl),
        List.eraseDups_cons, List.append_assoc, List.singleton_append, List.filter_filter]
      refine congrArg (fun rest => found ++ head :: List.eraseDups rest)
        (List.filter_congr fun value _ => ?_)
      rw [List.contains_append, List.contains_cons, List.contains_nil, Bool.or_false,
        Bool.not_or, Bool.and_comm]

theorem contains_eraseDups (values : List V) (value : V) :
    values.eraseDups.contains value = values.contains value := by
  induction hn : values.length using Nat.strongRecOn generalizing values with
  | ind n ih =>
    cases values with
    | nil => rfl
    | cons head values =>
      have hlength : (values.filter fun other => !(other == head)).length < n := by
        rw [← hn, List.length_cons]
        exact Nat.lt_succ_of_le (List.length_filter_le _ _)
      rw [List.eraseDups_cons, List.contains_cons, List.contains_cons,
        ih _ hlength _ rfl]
      cases hhead : value == head with
      | true => rfl
      | false =>
        refine (contains_filter_bne values head value).trans ?_
        rw [hhead, Bool.not_false, Bool.and_true, Bool.false_or]

theorem distinct_eraseDups (values : List V) : Distinct values.eraseDups := by
  induction hn : values.length using Nat.strongRecOn generalizing values with
  | ind n ih =>
    cases values with
    | nil => exact Distinct.nil
    | cons head values =>
      have hlength : (values.filter fun other => !(other == head)).length < n := by
        rw [← hn, List.length_cons]
        exact Nat.lt_succ_of_le (List.length_filter_le _ _)
      rw [List.eraseDups_cons]
      refine distinct_cons.2 ⟨fun other hother => ?_, ih _ hlength _ rfl⟩
      refine beq_eq_false_of_mem ?_ hother
      rw [contains_eraseDups]
      refine (contains_filter_bne values head head).trans ?_
      rw [BEq.rfl, Bool.not_true, Bool.and_false]

end Worksheet
