import Mathlib.Data.List.DropRight
import Worksheet.Proofs.Format.Printed

/-!
# What is shown at the places for digits

Digits are laid out over places from the right, and the first place takes those
for which there is no room. One after the other, the slots show what the places
without a digit show, and then all the digits (`Placeholder.flatten_fillRight`).

Behind the point each place has a digit. Zeros at the end are left out, or a
space is shown for them, back to the last digit that is no zero or the last
place that shows zeros (`exists_fractionSlots`).
-/

namespace Worksheet.Format

open Pattern

variable {digits : List Char} {placeholders : List Placeholder}

/-! ## Before the point

The slots from the left are those of places without a digit and then those of
the digits. Put side by side they are the padding and the digits, and no digit
is lost, since the first slot takes what has no room. -/

theorem zipWith_slot_none (placeholders : List Placeholder) :
    List.zipWith Placeholder.slot placeholders (List.replicate placeholders.length none)
      = placeholders.map Placeholder.padding := by
  induction placeholders with
  | nil => rfl
  | cons placeholder placeholders ih => exact congrArg (placeholder.padding :: ·) ih

theorem zipWith_slot_some (h : digits.length = placeholders.length) :
    List.zipWith Placeholder.slot placeholders (digits.map some)
      = digits.map fun digit => [digit] := by
  induction placeholders generalizing digits with
  | nil =>
    obtain rfl := List.length_eq_zero_iff.1 h
    rfl
  | cons placeholder placeholders ih =>
    obtain ⟨digit, digits, rfl⟩ := List.exists_cons_of_length_eq_add_one h
    exact congrArg ([digit] :: ·) (ih (Nat.succ.inj h))

/-- **What the places show**: those on the left that have no digit, and the
digits for which there is room. `List.zipWith` is split where the digits begin. -/
theorem shown_eq (digits : List Char) (placeholders : List Placeholder) :
    shown digits placeholders
      = (placeholders.take (placeholders.length - digits.length)).map Placeholder.padding
        ++ (digits.drop (digits.length - placeholders.length)).map fun digit => [digit] := by
  have hsplit := List.take_append_drop (placeholders.length - digits.length) placeholders
  have hunused : (placeholders.take (placeholders.length - digits.length)).length
      = placeholders.length - digits.length := by
    rw [List.length_take]
    omega
  have hused : (digits.drop (digits.length - placeholders.length)).length
      = (placeholders.drop (placeholders.length - digits.length)).length := by
    rw [List.length_drop, List.length_drop]
    omega
  have hnone := zipWith_slot_none (placeholders.take (placeholders.length - digits.length))
  rw [hunused] at hnone
  calc shown digits placeholders
      = List.zipWith Placeholder.slot
          (placeholders.take (placeholders.length - digits.length)
            ++ placeholders.drop (placeholders.length - digits.length))
          (aligned digits placeholders) := by rw [hsplit, shown]
    _ = _ := by
      rw [aligned, List.zipWith_append (by rw [hunused, List.length_replicate]), hnone,
        zipWith_slot_some hused]

/-- **All digits are shown, in order**, behind what the places without a digit
show. The digits for which there is no room are in the first slot, so they come
first here as well. -/
theorem flatten_fillRight (digits : List Char) (hsome : placeholders ≠ []) :
    (Placeholder.fillRight digits placeholders).flatten
      = (placeholders.take (placeholders.length - digits.length)).flatMap Placeholder.padding
        ++ digits := by
  have hfirst : (Placeholder.fillRight digits placeholders).flatten
      = digits.take (digits.length - placeholders.length)
        ++ (shown digits placeholders).flatten := by
    have hlength := @length_shown digits placeholders
    rw [fillRight_eq]
    cases hshown : shown digits placeholders with
    | nil =>
      rw [hshown] at hlength
      exact absurd (List.length_eq_zero_iff.1 hlength.symm) hsome
    | cons first slots =>
      dsimp only
      rw [List.flatten_cons, List.flatten_cons, List.append_assoc]
  have hsingle : ∀ text : List Char, (text.map fun digit => [digit]).flatten = text := fun text =>
    (List.flatMap_def ..).symm.trans (List.flatMap_singleton' text)
  rw [hfirst, shown_eq, List.flatten_append, hsingle, ← List.flatMap_def]
  rcases Nat.le_total digits.length placeholders.length with hroom | hexcess
  · rw [Nat.sub_eq_zero_of_le hroom, List.take_zero, List.nil_append, List.drop_zero]
  · rw [Nat.sub_eq_zero_of_le hexcess, List.take_zero, List.flatMap_nil, List.nil_append,
      List.nil_append, List.take_append_drop]

theorem eq_of_mem_padding {placeholder : Placeholder} {c : Char} (h : c ∈ placeholder.padding) :
    c = '0' ∨ c = ' ' := by
  cases placeholder with
  | optional => cases h
  | zero => exact .inl (List.mem_singleton.1 h)
  | space => exact .inr (List.mem_singleton.1 h)

theorem mem_of_mem_fillRight {c : Char}
    (h : c ∈ (Placeholder.fillRight digits placeholders).flatten) :
    c ∈ digits ∨ c = '0' ∨ c = ' ' := by
  rcases eq_or_ne placeholders [] with rfl | hsome
  · cases h
  · rw [flatten_fillRight digits hsome] at h
    rcases List.mem_append.1 h with hpadding | hdigit
    · obtain ⟨placeholder, -, hc⟩ := List.mem_flatMap.1 hpadding
      exact .inr (eq_of_mem_padding hc)
    · exact .inl hdigit

/-! ## Behind the point

Zeros are dropped from the end. They are looked for from the back, so the list
of digits beside their places is cut where the last one stands that has to be
shown. -/

/-- Whether a digit is left out at the end of a fraction, or a space is shown
for it. A place for zeros shows them. -/
def isBlankable (place : Char × Placeholder) : Bool :=
  place.1 = '0' && place.2 ≠ .zero

theorem length_blankZeros (places : List (Option Char × Placeholder)) :
    (NumberSection.blankZeros places).length = places.length := by
  fun_induction NumberSection.blankZeros places with
  | case1 => rfl
  | case2 rest => rw [List.length_cons, List.length_map, List.length_cons]
  | case3 rest ih | case4 rest ih => rw [List.length_cons, List.length_cons, ih]
  | case5 slot placeholder rest hother => rw [List.length_cons, List.length_map, List.length_cons]

theorem mem_of_mem_blankZeros {places : List (Option Char × Placeholder)} {shown : Option Char}
    (h : shown ∈ NumberSection.blankZeros places) :
    shown ∈ places.map Prod.fst ∨ shown = none ∨ shown = some ' ' := by
  fun_induction NumberSection.blankZeros places with
  | case1 => cases h
  | case2 rest => exact .inl h
  | case3 rest ih =>
    rcases List.mem_cons.1 h with rfl | h
    · exact .inr (.inl rfl)
    · exact (ih h).imp_left (List.mem_cons_of_mem _)
  | case4 rest ih =>
    rcases List.mem_cons.1 h with rfl | h
    · exact .inr (.inr rfl)
    · exact (ih h).imp_left (List.mem_cons_of_mem _)
  | case5 slot placeholder rest hother => exact .inl h

/-- Besides digits, spaces are shown behind the point, and nothing else. -/
theorem mem_of_mem_fractionSlots {c : Char}
    (h : c ∈ (NumberSection.fractionSlots placeholders digits).flatten) : c ∈ digits ∨ c = ' ' := by
  obtain ⟨slot, hslot, hc⟩ := List.mem_flatten.1 h
  unfold NumberSection.fractionSlots at hslot
  dsimp only at hslot
  obtain ⟨shown, hshown, rfl⟩ := List.mem_map.1 hslot
  obtain rfl := Option.mem_toList.1 hc
  rcases mem_of_mem_blankZeros (List.mem_reverse.1 hshown) with hplace | hnone | hspace
  · left
    rw [List.map_reverse, List.mem_reverse] at hplace
    obtain ⟨⟨_, placeholder⟩, hzip, rfl⟩ := List.mem_map.1 hplace
    rcases List.mem_append.1 (List.mem_of_mem_take (List.of_mem_zip hzip).1) with hdigit | hnone
    · obtain ⟨digit, hdigit, heq⟩ := List.mem_map.1 hdigit
      exact Option.some.inj heq ▸ hdigit
    · cases List.eq_of_mem_replicate hnone
  · cases hnone
  · exact .inr (Option.some.inj hspace)

theorem length_fractionSlots (placeholders : List Placeholder) (digits : List Char) :
    (NumberSection.fractionSlots placeholders digits).length = placeholders.length := by
  unfold NumberSection.fractionSlots
  dsimp only
  rw [List.length_map, List.length_reverse, length_blankZeros, List.length_reverse,
    List.length_zip, List.length_take, List.length_append, List.length_map, List.length_replicate]
  omega

/-- Zeros are blanked up to the first digit that has to be shown. The list is
the fraction backwards, so these are the zeros at its end. -/
theorem blankZeros_eq (places : List (Char × Placeholder)) :
    NumberSection.blankZeros (places.map fun place => (some place.1, place.2))
      = (places.takeWhile isBlankable).map (fun place => place.2.padding.head?)
        ++ (places.dropWhile isBlankable).map fun place => some place.1 := by
  induction places with
  | nil => rfl
  | cons place places ih =>
    obtain ⟨digit, placeholder⟩ := place
    rw [List.map_cons, List.takeWhile_cons, List.dropWhile_cons, NumberSection.blankZeros.eq_def]
    dsimp only
    have hkept : ((some digit, placeholder) :: places.map fun place =>
        (some place.1, place.2)).map Prod.fst
          = some digit :: places.map fun place => some place.1 := by
      rw [List.map_cons, List.map_map]
      rfl
    by_cases hdigit : digit = '0'
    · subst hdigit
      rw [if_pos rfl]
      cases placeholder with
      | zero => exact hkept
      | optional => exact congrArg (none :: ·) ih
      | space => exact congrArg (some ' ' :: ·) ih
    · have hshown : isBlankable (digit, placeholder) = false := by simp [isBlankable, hdigit]
      rw [if_neg (by simpa using hdigit), hshown]
      exact hkept

/-- **The slots of a fraction** are its digits, but for zeros at the end: the
fraction is reversed, blanked and reversed again, which is `List.rdropWhile` and
`List.rtakeWhile`. -/
theorem fractionSlots_eq (h : placeholders.length ≤ digits.length) :
    NumberSection.fractionSlots placeholders digits
      = ((digits.zip placeholders).rdropWhile isBlankable).map (fun place => [place.1])
        ++ ((digits.zip placeholders).rtakeWhile isBlankable).map fun place => place.2.padding := by
  have hzip : ((digits.map some ++ List.replicate (placeholders.length - digits.length) none).take
      placeholders.length).zip placeholders
        = (digits.zip placeholders).map fun place => (some place.1, place.2) := by
    have hmin : min (digits.map some).length placeholders.length = placeholders.length := by
      rw [List.length_map, Nat.min_eq_right h]
    calc _ = ((digits.map some).take placeholders.length).zip
              (placeholders.take placeholders.length) := by
            rw [Nat.sub_eq_zero_of_le h, List.replicate_zero, List.append_nil, List.take_length]
      _ = (digits.map some).zip placeholders := by
            conv_rhs => rw [List.zip_eq_zip_take_min, hmin]
      _ = _ := by
            rw [List.zip_map_left]
            rfl
  have hpadding : ∀ placeholder : Placeholder,
      placeholder.padding.head?.toList = placeholder.padding := by
    rintro (_ | _ | _) <;> rfl
  unfold NumberSection.fractionSlots
  dsimp only
  rw [hzip, ← List.map_reverse, blankZeros_eq, List.reverse_append, List.map_append,
    ← List.map_reverse, ← List.map_reverse, List.map_map, List.map_map]
  refine congrArg (_ ++ ·) (List.map_congr_left fun place _ => ?_)
  exact hpadding place.2

/-- **What places behind the point show**: the digits that are kept, and a space
or nothing for zeros at the end. The last digit that is kept is no zero, or
stands at a place that shows zeros, so that no more could have been left out. -/
theorem exists_fractionSlots (h : placeholders.length ≤ digits.length) : ∃ kept blanked,
    digits.zip placeholders = kept ++ blanked
      ∧ (∀ place ∈ blanked, place.1 = '0' ∧ place.2 ≠ .zero)
      ∧ (∀ place ∈ kept.getLast?, place.1 ≠ '0' ∨ place.2 = .zero)
      ∧ NumberSection.fractionSlots placeholders digits
        = kept.map (fun place => [place.1]) ++ blanked.map fun place => place.2.padding := by
  refine ⟨_, _, List.rdropWhile_append_rtakeWhile.symm, fun place hplace => ?_,
    fun place hplace => ?_, fractionSlots_eq h⟩
  · simpa [isBlankable] using List.mem_rtakeWhile_imp hplace
  · have hsome : (digits.zip placeholders).rdropWhile isBlankable ≠ [] := fun hnil => by
      rw [hnil] at hplace
      cases hplace
    have hlast := List.rdropWhile_last_not isBlankable _ hsome
    rw [List.getLast?_eq_some_getLast hsome] at hplace
    obtain rfl := Option.some.inj hplace
    simpa [isBlankable, imp_iff_not_or] using hlast

end Worksheet.Format
