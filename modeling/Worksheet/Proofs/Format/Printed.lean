import Worksheet.Proofs.Format.DigitPattern
import Worksheet.Proofs.Number.Unsigned
import Worksheet.Proofs.Read.Digits

/-!
# What a pattern of plain digits prints

A finite number is printed as a sign when it is negative, digits with separators
between some of them, a point and more digits when there are places behind one,
and the percent signs of the pattern (`DigitPattern.format_eq`). There is always
a digit before the point, and a separator always stands between two digits,
however the digits are laid out over the places (`Placeholder.fillRight`) and
wherever they are grouped (`separatedDigits_grouped`).
-/

namespace Worksheet.Format

open Pattern Read

/-! ## Digits and separators

A separator is written behind a digit, and only when three digits or a multiple
of them are still to come. So it is never the first character, never the last
one, and never beside another separator. -/

namespace NumberSection

variable {separator : Option Char}

theorem grouped_append (remaining : ℕ) (text more : List Char) :
    grouped separator remaining (text ++ more)
      = ((grouped separator remaining text).1
          ++ (grouped separator (grouped separator remaining text).2 more).1,
        (grouped separator (grouped separator remaining text).2 more).2) := by
  induction text generalizing remaining with
  | nil => rfl
  | cons c text ih =>
    rw [List.cons_append, grouped, grouped]
    split
    · simp only [ih, List.append_assoc]
    · simp only [ih, List.cons_append]

/-- **Grouping puts separators between digits**, and the digits are still the
first to be seen: no separator is written when no digit is left behind it. -/
theorem separatedDigits_grouped {digits : List Char} (h : ∀ c ∈ digits, c.isDigit = true)
    (started : Bool) :
    SeparatedDigits separator started (grouped separator digits.length digits).1
      ∧ (grouped separator digits.length digits).1.head? = digits.head? := by
  induction digits generalizing started with
  | nil => exact ⟨.nil, rfl⟩
  | cons c rest ih =>
    obtain ⟨hc, hrest⟩ := List.forall_mem_cons.1 h
    obtain ⟨hmore, hhead⟩ := ih hrest true
    rw [grouped, if_pos hc]
    simp only [List.length_cons, Nat.add_sub_cancel]
    refine ⟨.digit hc ?_, rfl⟩
    cases separator with
    | none => exact hmore
    | some mark =>
      by_cases hplace : 0 < rest.length ∧ rest.length % 3 = 0
      · -- a separator is followed by what the other digits begin with
        obtain ⟨d, others, rfl⟩ := List.exists_cons_of_length_pos hplace.1
        obtain ⟨more, hcons⟩ := List.head?_eq_some_iff.1 hhead
        simp only [if_pos hplace]
        rw [hcons] at hmore ⊢
        exact .mark rfl (List.forall_mem_cons.1 hrest).1 hmore
      · simp only [if_neg hplace]
        exact hmore

/-! ## Slots -/

end NumberSection

/-- Whether every character of a text is a digit. The empty text is one, too. -/
def AllDigits (text : List Char) : Prop :=
  ∀ c ∈ text, c.isDigit = true

section Slots

variable {digits : List Char} {placeholders : List Placeholder}

theorem allDigits_slot {placeholder : Placeholder} (h : placeholder ≠ .space) {shown : Option Char}
    (hshown : ∀ c ∈ shown, c.isDigit = true) : AllDigits (placeholder.slot shown) := by
  cases shown with
  | some digit => exact List.forall_mem_singleton.2 (hshown digit rfl)
  | none =>
    cases placeholder with
    | optional => exact nofun
    | zero => exact List.forall_mem_singleton.2 rfl
    | space => exact absurd rfl h

/-- The digits beside their places, filled up from the left with nothing. Digits
for which there is no room are left out here; `Placeholder.fillRight` puts them
into the first slot. -/
def aligned (digits : List Char) (placeholders : List Placeholder) : List (Option Char) :=
  List.replicate (placeholders.length - digits.length) none
    ++ (digits.drop (digits.length - placeholders.length)).map some

def shown (digits : List Char) (placeholders : List Placeholder) : List (List Char) :=
  List.zipWith Placeholder.slot placeholders (aligned digits placeholders)

theorem length_aligned : (aligned digits placeholders).length = placeholders.length := by
  rw [aligned, List.length_append, List.length_replicate, List.length_map, List.length_drop]
  omega

theorem length_shown : (shown digits placeholders).length = placeholders.length := by
  rw [shown, List.length_zipWith, length_aligned, Nat.min_self]

/-- The first slot also takes the digits for which there is no room, so that no
digit of a number is lost however few places there are. -/
theorem fillRight_eq (digits : List Char) (placeholders : List Placeholder) :
    Placeholder.fillRight digits placeholders
      = match shown digits placeholders with
        | [] => []
        | first :: slots =>
          (digits.take (digits.length - placeholders.length) ++ first) :: slots :=
  rfl

theorem length_fillRight : (Placeholder.fillRight digits placeholders).length
    = placeholders.length := by
  rw [fillRight_eq, ← @length_shown digits]
  cases shown digits placeholders <;> rfl

theorem allDigits_of_mem_shown (hdigits : AllDigits digits)
    (hspace : Placeholder.space ∉ placeholders) :
    ∀ slot ∈ shown digits placeholders, AllDigits slot := by
  rw [shown, ← List.map_uncurry_zip_eq_zipWith, List.forall_mem_map]
  intro (placeholder, digit) hmem
  obtain ⟨hplaceholder, hdigit⟩ := List.of_mem_zip hmem
  refine allDigits_slot (fun h => hspace (h ▸ hplaceholder)) fun c hc => ?_
  obtain rfl : digit = some c := hc
  rcases List.mem_append.1 hdigit with hmem | hmem
  · cases List.eq_of_mem_replicate hmem
  · obtain ⟨d, hd, hsome⟩ := List.mem_map.1 hmem
    exact Option.some.inj hsome ▸ hdigits d (List.mem_of_mem_drop hd)

/-- A zero is always shown: its place has a slot that is not empty. -/
theorem exists_mem_shown (hzero : Placeholder.zero ∈ placeholders) :
    ∃ slot ∈ shown digits placeholders, slot ≠ [] := by
  have hpairs : (placeholders.zip (aligned digits placeholders)).map Prod.fst = placeholders :=
    List.map_fst_zip length_aligned.ge
  rw [← hpairs] at hzero
  obtain ⟨⟨placeholder, digit⟩, hmem, hplaceholder⟩ := List.mem_map.1 hzero
  obtain rfl : placeholder = .zero := hplaceholder
  refine ⟨Placeholder.zero.slot digit, ?_, by cases digit <;> exact List.cons_ne_nil _ _⟩
  rw [shown, ← List.map_uncurry_zip_eq_zipWith]
  exact List.mem_map.2 ⟨_, hmem, rfl⟩

/-- **The slots of a number are made of digits**, and there are some where a
zero is always shown. A place that shows a space is left out here, as a pattern
of plain digits has none. -/
theorem allDigits_fillRight (hdigits : AllDigits digits)
    (hspace : Placeholder.space ∉ placeholders) (hzero : .zero ∈ placeholders) :
    AllDigits (Placeholder.fillRight digits placeholders).flatten
      ∧ (Placeholder.fillRight digits placeholders).flatten ≠ [] := by
  have hshown := allDigits_of_mem_shown hdigits hspace
  obtain ⟨slot, hmem, hslot⟩ := @exists_mem_shown digits _ hzero
  rw [fillRight_eq]
  cases hslots : shown digits placeholders with
  | nil =>
    rw [hslots] at hmem
    cases hmem
  | cons first slots =>
    rw [hslots] at hshown hmem
    dsimp only
    rw [List.flatten_cons, List.append_assoc, ← List.flatten_cons]
    constructor
    · intro c hc
      rcases List.mem_append.1 hc with hc | hc
      · exact hdigits c (List.mem_of_mem_take hc)
      · exact List.forall_mem_flatten.2 hshown c hc
    · exact List.append_ne_nil_of_right_ne_nil _ (List.flatten_ne_nil_iff.2 ⟨slot, hmem, hslot⟩)

theorem blankZeros_spec {slots : List (Option Char × Placeholder)}
    (hspace : ∀ slot ∈ slots, slot.2 ≠ .space) :
    (NumberSection.blankZeros slots).length = slots.length
      ∧ ∀ digit ∈ NumberSection.blankZeros slots, digit = none ∨ digit ∈ slots.map Prod.fst := by
  induction slots with
  | nil => exact ⟨rfl, nofun⟩
  | cons slot slots ih =>
    obtain ⟨digit, placeholder⟩ := slot
    obtain ⟨hplaceholder, hrest⟩ := List.forall_mem_cons.1 hspace
    obtain ⟨hlength, hmem⟩ := ih hrest
    simp only [NumberSection.blankZeros]
    split
    · cases placeholder with
      | zero => exact ⟨by rw [List.length_cons, List.length_map, List.length_cons], fun _ => .inr⟩
      | optional =>
        refine ⟨congrArg (· + 1) hlength, List.forall_mem_cons.2 ⟨.inl rfl, fun d hd => ?_⟩⟩
        exact (hmem d hd).imp_right (List.mem_cons_of_mem _)
      | space => exact absurd rfl hplaceholder
    · exact ⟨by rw [List.length_cons, List.length_map, List.length_cons], fun _ => .inr⟩

theorem fractionSlots_spec (hdigits : AllDigits digits)
    (hspace : Placeholder.space ∉ placeholders) :
    (NumberSection.fractionSlots placeholders digits).length = placeholders.length
      ∧ AllDigits (NumberSection.fractionSlots placeholders digits).flatten := by
  -- the digits, cut or filled up to the number of places
  let padded := (digits.map some
    ++ List.replicate (placeholders.length - digits.length) none).take placeholders.length
  have hpadded : padded.length = placeholders.length := by
    rw [List.length_take, List.length_append, List.length_map, List.length_replicate]
    omega
  have hmem : ∀ digit ∈ padded, ∀ c ∈ digit, c.isDigit = true := by
    intro digit hdigit c hc
    obtain rfl : digit = some c := hc
    rcases List.mem_append.1 (List.mem_of_mem_take hdigit) with hmem | hmem
    · obtain ⟨d, hd, hsome⟩ := List.mem_map.1 hmem
      exact Option.some.inj hsome ▸ hdigits d hd
    · cases List.eq_of_mem_replicate hmem
  obtain ⟨hlength, hblank⟩ := @blankZeros_spec (padded.zip placeholders).reverse
    fun slot hslot hplaceholder =>
      hspace (hplaceholder ▸ (List.of_mem_zip (List.mem_reverse.1 hslot)).2)
  show (((NumberSection.blankZeros (padded.zip placeholders).reverse).reverse).map
      Option.toList).length = _ ∧ AllDigits (((NumberSection.blankZeros
        (padded.zip placeholders).reverse).reverse).map Option.toList).flatten
  constructor
  · rw [List.length_map, List.length_reverse, hlength, List.length_reverse, List.length_zip,
      hpadded, Nat.min_self]
  · refine List.forall_mem_flatten.2 (List.forall_mem_map.2 fun digit hdigit c hc => ?_)
    have hc : digit = some c := Option.mem_toList.1 hc
    rcases hblank digit (List.mem_reverse.1 hdigit) with hnone | hfrom
    · rw [hc] at hnone
      cases hnone
    · rw [List.map_reverse, List.map_fst_zip hpadded.le, List.mem_reverse] at hfrom
      exact hmem digit hfrom c hc

end Slots

/-! ## Runs of pieces

The pieces of a pattern of plain digits come in runs, and what `write` does
with a run is said once for each kind of run: places before the point, the
point, places behind it, percent signs. -/

section Write

open NumberSection

variable {signs : NumberSigns} {grouping : Bool} {whole : Option (List Char)} {exponent : ℤ}
  {items : List NumberItem} {slots fraction exponents : List (List Char)} {digits : ℕ}

/-- The sign is written before what the number begins with, and from then on it
is as if there were none. The lemmas below are therefore said of numbers without
a sign. -/
theorem write_sign {item : NumberItem} (hbegins : beginsNumber item = true) (pending : Pending) :
    write signs grouping whole exponent (item :: items) pending
      = (if pending.sign then [signs.negativeSign] else [])
        ++ write signs grouping whole exponent (item :: items) { pending with sign := false } := by
  simp only [write, hbegins, Bool.and_true, Bool.false_eq_true, if_false,
    Bool.not_false, Bool.and_not_self, List.nil_append]

/-- The places before the point are written as their slots, with separators
between the digits that `grouped` has counted. -/
theorem write_integer {placeholders : List Placeholder}
    (hlength : slots.length = placeholders.length) :
    write signs grouping whole exponent (placeholders.map (.digit .integer) ++ items)
        ⟨false, digits, slots, fraction, exponents⟩
      = (grouped (if grouping then some signs.groupSeparator else none) digits slots.flatten).1
        ++ write signs grouping whole exponent items ⟨false,
          (grouped (if grouping then some signs.groupSeparator else none) digits slots.flatten).2,
          [], fraction, exponents⟩ := by
  induction placeholders generalizing slots digits with
  | nil =>
    obtain rfl := List.length_eq_zero_iff.1 hlength
    rfl
  | cons placeholder placeholders ih =>
    obtain ⟨slot, slots, rfl⟩ := List.exists_cons_of_length_eq_add_one hlength
    rw [List.map_cons, List.cons_append, write, List.flatten_cons, grouped_append]
    simp only [Bool.false_and, Bool.false_eq_true, if_false, List.nil_append, List.headD_cons,
      List.tail_cons, Bool.not_false, List.append_assoc]
    rw [ih (Nat.succ.inj hlength)]

theorem write_point {integer : List (List Char)} :
    write signs grouping none exponent (.decimalPoint :: items)
        ⟨false, digits, integer, fraction, exponents⟩
      = signs.decimalPoint :: write signs grouping none exponent items
          ⟨false, digits, integer, fraction, exponents⟩ :=
  rfl

theorem write_fraction {placeholders : List Placeholder}
    (hlength : slots.length = placeholders.length) {integer : List (List Char)} :
    write signs grouping whole exponent (placeholders.map (.digit .fraction) ++ items)
        ⟨false, digits, integer, slots, exponents⟩
      = slots.flatten ++ write signs grouping whole exponent items
          ⟨false, digits, integer, [], exponents⟩ := by
  induction placeholders generalizing slots with
  | nil =>
    obtain rfl := List.length_eq_zero_iff.1 hlength
    rfl
  | cons placeholder placeholders ih =>
    obtain ⟨slot, slots, rfl⟩ := List.exists_cons_of_length_eq_add_one hlength
    rw [List.map_cons, List.cons_append, write, List.flatten_cons, List.append_assoc,
      ← ih (Nat.succ.inj hlength)]
    rfl

theorem write_percents (n : ℕ) (pending : Pending) :
    write signs grouping whole exponent (List.replicate n .percent) pending
      = List.replicate n signs.percentSymbol := by
  induction n generalizing pending with
  | zero => rfl
  | succ n ih =>
    rw [List.replicate_succ, write, ih, List.replicate_succ]
    simp [beginsNumber]

end Write

/-! ## A whole number -/

namespace DigitPattern

variable (p : DigitPattern)

theorem layout_eq : ∃ grouping, p.layout = ⟨p.items, grouping, p.scale⟩ :=
  p.numberSection_eq

theorem items_layout : p.layout.items = p.items := by
  obtain ⟨grouping, h⟩ := p.layout_eq
  rw [h]

theorem placeholdersIn_digits (zone zone' : Zone) (placeholders : List Placeholder) :
    NumberSection.placeholdersIn zone (placeholders.map (.digit zone'))
      = if zone' = zone then placeholders else [] := by
  rw [NumberSection.placeholdersIn, List.filterMap_map]
  split
  · rename_i hzone
    subst hzone
    exact (congrArg (List.filterMap · placeholders) (funext fun _ => if_pos rfl)).trans
      List.filterMap_some
  · rename_i hzone
    exact List.filterMap_eq_nil_iff.2 fun _ _ => if_neg hzone

/-- The places of a zone are those of its run; there are no others. -/
theorem placeholdersIn_layout (zone : Zone) : NumberSection.placeholdersIn zone p.layout.items
    = (if .integer = zone then places p.integer else [])
      ++ if .fraction = zone then places p.fraction else [] := by
  have happend : ∀ front back, NumberSection.placeholdersIn zone (front ++ back)
      = NumberSection.placeholdersIn zone front ++ NumberSection.placeholdersIn zone back :=
    fun _ _ => List.filterMap_append
  have hpercents : NumberSection.placeholdersIn zone (List.replicate p.percents .percent) = [] :=
    List.filterMap_eq_nil_iff.2 fun item h => by rw [List.eq_of_mem_replicate h]
  have hdecimals : NumberSection.placeholdersIn zone p.decimalItems
      = if .fraction = zone then places p.fraction else [] := by
    rw [decimalItems]
    split
    · rename_i hnone
      rw [hnone]
      split <;> rfl
    · exact placeholdersIn_digits zone .fraction (places p.fraction)
  rw [items_layout, items, happend, happend, placeholdersIn_digits, hdecimals, hpercents,
    List.append_nil]

theorem integer_layout : p.layout.integer = places p.integer :=
  (p.placeholdersIn_layout .integer).trans (List.append_nil _)

theorem fraction_layout : p.layout.fraction = places p.fraction :=
  p.placeholdersIn_layout .fraction

theorem percent_layout : p.layout.percent = p.percents := by
  have hnone : ∀ zone (placeholders : List Placeholder),
      (placeholders.map (NumberItem.digit zone)).count .percent = 0 := by
    refine fun zone placeholders => List.count_eq_zero.2 fun h => ?_
    obtain ⟨placeholder, -, heq⟩ := List.mem_map.1 h
    cases heq
  have hdecimals : p.decimalItems.count .percent = 0 := by
    rw [decimalItems]
    split
    · rfl
    · exact hnone .fraction (places p.fraction)
  rw [NumberSection.percent, items_layout, items, List.count_append, List.count_append, hnone,
    hdecimals, List.count_replicate_self, Nat.zero_add, Nat.zero_add]

theorem isScientific_layout : p.layout.isScientific = false := by
  rw [NumberSection.isScientific, items_layout, items, decimalItems, List.any_append,
    List.any_append]
  split <;> simp [NumberSection.isExponentMark]

/-- The size of a number in percent and in thousands: what is multiplied by a
hundred for each percent sign and divided by a thousand for each separator at
the end. -/
theorem scaled_layout (value : Float) : p.layout.scaled value
    = value.abs * Number.powInt 100 p.percents / Number.powInt 1000 p.scale := by
  obtain ⟨grouping, h⟩ := p.layout_eq
  rw [NumberSection.scaled, percent_layout, h]

/-! ## What is printed -/

theorem space_notMem_places (run : List Char) : Placeholder.space ∉ places run := by
  rw [places, List.mem_map]
  rintro ⟨c, -, hc⟩
  split at hc <;> cases hc

/-- The last place before the point shows a zero, so there is always a digit
there. -/
theorem zero_mem_places : Placeholder.zero ∈ places p.integer := by
  have hmem : '0' ∈ p.integer := List.mem_of_getLast? p.integer_last
  exact List.mem_map.2 ⟨'0', List.mem_filter.2 ⟨hmem, rfl⟩, rfl⟩

/-- A number as it is printed: a sign, the digits before the point with their
separators, the digits behind it and the percent signs. -/
def printed (signs : NumberSigns) (negative : Bool) (integer fraction : List Char) : List Char :=
  (if negative then [signs.negativeSign] else [])
    ++ (integer ++ ((if p.fraction = [] then [] else signs.decimalPoint :: fraction)
      ++ List.replicate p.percents signs.percentSymbol))

def separator? (signs : NumberSigns) : Option Char :=
  if p.layout.grouping then some signs.groupSeparator else none

/-- **What the pieces of a pattern write**, the slots of all places given: the
runs are written one after the other by the lemmas on them. -/
theorem write_items (signs : NumberSigns) (exponent : ℤ) (negative : Bool) (digits : ℕ)
    {slots fraction exponents : List (List Char)}
    (hslots : slots.length = (places p.integer).length)
    (hfraction : fraction.length = (places p.fraction).length) :
    NumberSection.write signs p.layout.grouping none exponent p.items
        ⟨negative, digits, slots, fraction, exponents⟩
      = p.printed signs negative
          (NumberSection.grouped (p.separator? signs) digits slots.flatten).1
          fraction.flatten := by
  have hsome : places p.integer ≠ [] := List.ne_nil_of_mem p.zero_mem_places
  obtain ⟨place, others, hplaces⟩ := List.exists_cons_of_ne_nil hsome
  have hitems : p.items = .digit .integer place :: (others.map (.digit .integer)
      ++ (p.decimalItems ++ List.replicate p.percents .percent)) := by
    rw [items, hplaces]
    rfl
  rw [printed, hitems, write_sign rfl, ← hitems, items, write_integer hslots, separator?,
    decimalItems]
  refine congrArg (List.append _) (congrArg (List.append _) ?_)
  split
  · rw [List.nil_append, List.nil_append, write_percents]
  · exact write_point.trans (congrArg (List.cons _)
      ((write_fraction hfraction).trans (congrArg (List.append _) (write_percents _ _))))

theorem unsigned_scaled (layout : NumberSection) (value : Float) :
    Number.Unsigned (layout.scaled value) :=
  have hthousand : Number.Unsigned 1000 := .inl (by unfold Number.IsSize; decide)
  ((Number.unsigned_abs value).mul (Number.unsigned_powInt Number.unsigned_hundred _)).div
    (Number.unsigned_powInt hthousand _)

/-- **What a finite number is printed as**: the digits before the point are
digits and separators and begin with a digit, and those behind it are digits.
The scaled number has to be finite as well, as percent signs can lead out of the
range. -/
theorem format_eq (signs : NumberSigns) {value : Float} (hfinite : value.isFinite = true)
    (hscaled : (p.layout.scaled value).isFinite = true) : ∃ integer fraction,
    p.layout.format signs value = p.printed signs (value < 0) integer fraction
      ∧ (∀ started, SeparatedDigits (p.separator? signs) started integer)
      ∧ (∃ c ∈ integer.head?, c.isDigit = true) ∧ AllDigits fraction := by
  obtain ⟨hnan, hinf⟩ := Number.isNaN_isInf_of_isFinite hfinite
  let rendered := Number.fixedText p.layout.fraction.length (p.layout.scaled value)
  obtain ⟨hwhole, hdecimals⟩ := @Number.isDigit_of_mem_fixedText _
    p.layout.fraction.length hscaled ((unsigned_scaled _ value).isSigned hscaled)
  let whole := (rendered.takeWhile (· != '.')).dropWhile (· == '0')
  let slots := Placeholder.fillRight whole p.layout.integer
  let decimals := NumberSection.fractionSlots p.layout.fraction
    ((rendered.dropWhile (· != '.')).drop 1)
  obtain ⟨hdigits, hsome⟩ : AllDigits slots.flatten ∧ slots.flatten ≠ [] := by
    refine allDigits_fillRight (fun c hc => hwhole c ((List.dropWhile_suffix _).subset hc)) ?_ ?_
    · exact p.integer_layout ▸ space_notMem_places p.integer
    · exact p.integer_layout ▸ p.zero_mem_places
  obtain ⟨hlength, hfraction⟩ : decimals.length = p.layout.fraction.length
      ∧ AllDigits decimals.flatten :=
    fractionSlots_spec hdecimals (p.fraction_layout ▸ space_notMem_places p.fraction)
  have hnone : p.layout.integer.isEmpty = false := by
    rw [integer_layout, List.isEmpty_eq_false_iff]
    exact List.ne_nil_of_mem p.zero_mem_places
  -- formatting a finite value is writing the items over the filled places
  have hformat : p.layout.format signs value = NumberSection.write signs p.layout.grouping none 0
      p.layout.items ⟨value < 0, (slots.flatten.filter Char.isDigit).length, slots, decimals,
        Placeholder.fillRight (Text.ofNat 0) p.layout.exponent⟩ := by
    rw [NumberSection.format, hnan, hinf, isScientific_layout, hnone]
    rfl
  obtain ⟨c, others, hcons⟩ := List.exists_cons_of_ne_nil hsome
  have hgrouped := fun started => @NumberSection.separatedDigits_grouped
    (p.separator? signs) _ hdigits started
  refine ⟨_, decimals.flatten, ?_, fun started => (hgrouped started).1, ?_, hfraction⟩
  · rw [hformat, items_layout, List.filter_eq_self.2 hdigits]
    exact p.write_items signs 0 _ _ (p.integer_layout ▸ length_fillRight)
      (p.fraction_layout ▸ hlength)
  · rw [(hgrouped false).2, hcons]
    exact ⟨c, rfl, hdigits c (hcons ▸ List.mem_cons_self)⟩

end DigitPattern

end Worksheet.Format
