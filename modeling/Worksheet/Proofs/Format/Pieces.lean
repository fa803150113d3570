import Mathlib.Data.Int.Notation
import Worksheet.Proofs.Format.Glyphs

/-!
# The pieces of a number, character by character

The pieces of a section are gone through once more as they are to write a
number, but with each character goes what it belongs to, and there is nothing
when a place finds no slot or a digit is written when none is left to be
(`NumberSection.spellItems?`).

What is still to be written fits the pieces at each of them: there is a slot for
each place, and there are as many digits as in the slots before the point
(`Ready`). So every piece has its glyphs (`exists_spellItem?`), and what all of
them write together (`Spelled`) is put together from what one of them does
(`Piece`, `exists_spellItems?`).
-/

namespace Worksheet.Format

open Pattern Glyph

/-- What the digits of a run belong to. The three runs have different origins,
so a character of one is never taken for one of another. -/
def Zone.origin : Zone → Origin
  | .integer => .integer
  | .fraction => .fraction
  | .exponent => .exponent

theorem Zone.origin_injective : Function.Injective Zone.origin := by
  rintro (_ | _ | _) (_ | _ | _) h <;> first | rfl | cases h

/-- What the glyphs of a piece belong to. Before the point there may be
separators, and in front of a point the digits that have no place. -/
def NumberItem.origins : NumberItem → List Origin
  | .digit .integer _ => [.integer, .separator]
  | .digit zone _ => [zone.origin]
  | .decimalPoint => [.whole, .point]
  | .exponentMark _ => [.exponentMark]
  | .percent => [.percent]
  | .currency => [.currency]
  | .literal _ => [.literal]

namespace NumberSection

/-! ## One piece

`write` and the glyphs go through the pieces in the same way, one piece at a
time. `Piece` says what such a step does to what is still to be written, and
`Ready` that there is enough of it; both are shown of places before the point,
of other places, and of all that is no place. -/

/-- The slots of a run that are still to be written. -/
def Pending.slots (pending : Pending) : Zone → List (List Char)
  | .integer => pending.integer
  | .fraction => pending.fraction
  | .exponent => pending.exponent

def Pending.behind (pending : Pending) : Zone → Pending
  | .integer => { pending with integer := pending.integer.tail }
  | .fraction => { pending with fraction := pending.fraction.tail }
  | .exponent => { pending with exponent := pending.exponent.tail }

/-- The glyphs of a piece that is no place for a digit. They depend on the
locale, the exponent and the digits before a point without places, and never on
what is still to be written. -/
def fixedGlyphs (signs : NumberSigns) (whole : Option (List Char)) (exponent : ℤ) :
    NumberItem → List Glyph
  | .digit .. => []
  | .decimalPoint => Origin.whole.glyphs (whole.getD []) ++ [⟨.point, signs.decimalPoint⟩]
  | .exponentMark explicit =>
    Origin.exponentMark.glyphs (signs.exponentSymbol
      ++ if exponent < 0 then [signs.negativeSign]
        else if explicit then [signs.positiveSign] else [])
  | .percent => [⟨.percent, signs.percentSymbol⟩]
  | .currency => Origin.currency.glyphs signs.currencySymbol
  | .literal text => Origin.literal.glyphs text

def separatorOf (signs : NumberSigns) (grouping : Bool) : Option Char :=
  if grouping then some signs.groupSeparator else none

/-- The text of a piece, and what is still to be written behind it: one step of
`write`, said apart from its recursion. -/
def writeItem (signs : NumberSigns) (grouping : Bool) (whole : Option (List Char)) (exponent : ℤ)
    (item : NumberItem) (pending : Pending) : List Char × Pending :=
  match item with
  | .digit zone _ =>
    let slot := (pending.slots zone).headD []
    if zone = .integer then
      let (text, left) := grouped (separatorOf signs grouping) pending.digits slot
      (text, { pending.behind zone with digits := left })
    else (slot, pending.behind zone)
  | item => (textOf (fixedGlyphs signs whole exponent item), pending)

/-- **The glyphs of a piece**, and what is still to be written behind it. There
are none for a place without a slot, for which `writeItem` writes nothing. -/
def spellItem? (signs : NumberSigns) (grouping : Bool) (whole : Option (List Char)) (exponent : ℤ)
    (item : NumberItem) (pending : Pending) : Option (List Glyph × Pending) :=
  match item with
  | .digit zone _ =>
    (pending.slots zone).head?.bind fun slot =>
      if zone = .integer then
        (grouped? (separatorOf signs grouping) pending.digits slot).map fun (glyphs, left) =>
          (glyphs, { pending.behind zone with digits := left })
      else some (zone.origin.glyphs slot, pending.behind zone)
  | item => some (fixedGlyphs signs whole exponent item, pending)

def signGlyphs (signs : NumberSigns) (item : NumberItem) (pending : Pending) : List Glyph :=
  if pending.sign && beginsNumber item then [⟨.sign, signs.negativeSign⟩] else []

def Pending.signed (pending : Pending) (item : NumberItem) : Pending :=
  { pending with sign := pending.sign && !beginsNumber item }

/-- **The glyphs of some pieces**, one after the other, with the sign in front
of the first piece that the number begins with. -/
def spellItems? (signs : NumberSigns) (grouping : Bool) (whole : Option (List Char))
    (exponent : ℤ) : List NumberItem → Pending → Option (List Glyph)
  | [], _ => some []
  | item :: items, pending =>
    (spellItem? signs grouping whole exponent item (pending.signed item)).bind
      fun (glyphs, pending') =>
        (spellItems? signs grouping whole exponent items pending').map fun more =>
          signGlyphs signs item pending ++ (glyphs ++ more)

variable {signs : NumberSigns} {grouping : Bool} {whole : Option (List Char)} {exponent : ℤ}
  {item : NumberItem} {items : List NumberItem} {pending pending' : Pending}
  {glyphs more : List Glyph}

/-- **Pieces are written one after the other**, a sign before the first of the
number. This is the equation by which `write` is used from here on; the
definition is not unfolded again. -/
theorem write_cons (item : NumberItem) (items : List NumberItem) (pending : Pending) :
    write signs grouping whole exponent (item :: items) pending
      = textOf (signGlyphs signs item pending)
        ++ ((writeItem signs grouping whole exponent item (pending.signed item)).1
          ++ write signs grouping whole exponent items
            (writeItem signs grouping whole exponent item (pending.signed item)).2) := by
  have hsign : textOf (signGlyphs signs item pending)
      = if pending.sign && beginsNumber item then [signs.negativeSign] else [] := by
    unfold signGlyphs
    split <;> rfl
  -- the sign stands before the first item that begins the number and is not
  -- pending after it
  have hpending : (pending.sign && !(pending.sign && beginsNumber item))
      = (pending.sign && !beginsNumber item) := by
    cases pending.sign <;> rfl
  rw [hsign, write.eq_def]
  dsimp only
  rw [hpending]
  cases item with
  | digit zone placeholder => cases zone <;> rfl
  | decimalPoint =>
    simp only [writeItem, fixedGlyphs, textOf_append, textOf_glyphs, List.append_assoc]
    rfl
  | exponentMark explicit =>
    simp only [writeItem, fixedGlyphs, textOf_glyphs]
    rfl
  | percent => rfl
  | currency =>
    simp only [writeItem, fixedGlyphs, textOf_glyphs]
    rfl
  | literal text =>
    simp only [writeItem, fixedGlyphs, textOf_glyphs]
    rfl

theorem slots_behind (zone zone' : Zone) (pending : Pending) : (pending.behind zone).slots zone'
    = if zone = zone' then (pending.slots zone).tail else pending.slots zone' := by
  cases zone <;> cases zone' <;> rfl

theorem sign_digits_behind (zone : Zone) (pending : Pending) :
    (pending.behind zone).sign = pending.sign ∧ (pending.behind zone).digits = pending.digits := by
  cases zone <;> exact ⟨rfl, rfl⟩

theorem slots_signed (zone : Zone) :
    (pending.signed item).slots zone = pending.slots zone := by
  cases zone <;> rfl

/-- **What is still to be written fits the pieces**: there is a slot for each
place, and there are as many digits left as the slots before the point have. It
is the invariant of the run over the pieces. -/
structure Ready (items : List NumberItem) (pending : Pending) : Prop where
  length_slots : ∀ zone, (pending.slots zone).length = (placeholdersIn zone items).length
  digits_eq : pending.digits = (pending.slots .integer).flatten.countP Char.isDigit

theorem Ready.signed (h : Ready items pending) (item : NumberItem) :
    Ready items (pending.signed item) :=
  ⟨fun zone => (congrArg List.length (slots_signed zone)).trans (h.length_slots zone), h.digits_eq⟩

/-- What a piece writes, in terms of what was to be written before it and what
is behind it. The fields are those of `Spelled`, each said of one step. -/
structure Piece (signs : NumberSigns) (grouping : Bool) (whole : Option (List Char)) (exponent : ℤ)
    (item : NumberItem) (pending : Pending) (glyphs : List Glyph) (pending' : Pending) : Prop where
  /-- Its glyphs make up its text. -/
  text_eq : writeItem signs grouping whole exponent item pending = (textOf glyphs, pending')
  /-- They belong to it. -/
  origin_mem : ∀ glyph ∈ glyphs, glyph.origin ∈ item.origins
  /-- It has nothing to do with the sign. -/
  sign_eq : pending'.sign = pending.sign
  /-- At a place it writes its slot. -/
  slots_eq : ∀ zone : Zone,
    charsOf zone.origin glyphs ++ (pending'.slots zone).flatten = (pending.slots zone).flatten
  /-- Without grouping it writes the same without the separators. -/
  ungrouped_eq : spellItem? signs false whole exponent item pending
    = some (ungrouped glyphs, pending')
  /-- It keeps digits grouped. -/
  isGrouped : ∀ more, digits more = pending'.digits → Grouped signs.groupSeparator more →
    Grouped signs.groupSeparator (glyphs ++ more)

theorem sign_notMem_origins (item : NumberItem) : Origin.sign ∉ item.origins := by
  rcases item with ⟨_ | _ | _, _⟩ | _ | _ | _ | _ | _ <;> simp [NumberItem.origins, Zone.origin]

/-- Pieces the number does not begin with are not part of it, so they may stand
before the sign. -/
theorem ofNumber_of_mem_origins {origin : Origin} (hbegins : beginsNumber item = false)
    (h : origin ∈ item.origins) : origin.ofNumber = false := by
  rcases item with ⟨_ | _ | _, _⟩ | _ | _ | _ | _ | _ <;>
    simp_all [NumberItem.origins, Zone.origin, beginsNumber, Origin.ofNumber]

theorem charsOf_origin_glyphs (zone zone' : Zone) (text : List Char) :
    charsOf zone'.origin (zone.origin.glyphs text) = if zone = zone' then text else [] := by
  simp only [charsOf_glyphs, Zone.origin_injective.eq_iff]

variable {zone : Zone} {placeholder : Placeholder}

theorem placeholdersIn_digit (zone zone' : Zone) (placeholder : Placeholder)
    (items : List NumberItem) : placeholdersIn zone' (.digit zone placeholder :: items)
      = (if zone = zone' then [placeholder] else []) ++ placeholdersIn zone' items := by
  by_cases h : zone = zone' <;> simp [placeholdersIn, h]

/-- **A place has a slot**, and the other slots are for the other places. -/
theorem Ready.exists_slot (h : Ready (.digit zone placeholder :: items) pending) :
    ∃ slot, (pending.slots zone).head? = some slot
      ∧ ∀ zone', ((pending.behind zone).slots zone').length = (placeholdersIn zone' items).length
        ∧ (if zone = zone' then slot else []) ++ ((pending.behind zone).slots zone').flatten
          = (pending.slots zone').flatten := by
  have hlength := h.length_slots zone
  rw [placeholdersIn_digit, if_pos rfl, List.singleton_append, List.length_cons] at hlength
  obtain ⟨slot, slots, hslots⟩ := List.exists_cons_of_length_eq_add_one hlength
  refine ⟨slot, by rw [hslots, List.head?_cons], fun zone' => ?_⟩
  by_cases hzone : zone = zone'
  · subst hzone
    rw [slots_behind, if_pos rfl, if_pos rfl, hslots, List.tail_cons, List.flatten_cons]
    rw [hslots] at hlength
    exact ⟨Nat.succ.inj hlength, rfl⟩
  · have hother := h.length_slots zone'
    rw [placeholdersIn_digit, if_neg hzone, List.nil_append] at hother
    rw [slots_behind, if_neg hzone, if_neg hzone, List.nil_append]
    exact ⟨hother, rfl⟩

theorem separator_notMem_origins (hitem : ∀ placeholder, item ≠ .digit .integer placeholder) :
    Origin.separator ∉ item.origins := by
  rcases item with ⟨_ | _ | _, placeholder⟩ | _ | _ | _ | _ | _
  · exact absurd rfl (hitem placeholder)
  all_goals simp [NumberItem.origins, Zone.origin]

theorem isFixed_of_mem_origins {origin : Origin} (h : origin ∈ item.origins) :
    origin.isFixed = true ↔ ∀ zone placeholder, item ≠ .digit zone placeholder := by
  rcases item with ⟨_ | _ | _, _⟩ | _ | _ | _ | _ | _ <;> cases origin <;>
    simp_all [NumberItem.origins, Zone.origin, Origin.isFixed]

theorem place_notMem_origins (hfixed : ∀ zone placeholder, item ≠ .digit zone placeholder)
    (zone : Zone) : zone.origin ∉ item.origins := by
  rcases item with ⟨zone', placeholder⟩ | _ | _ | _ | _ | _
  · exact absurd rfl (hfixed zone' placeholder)
  all_goals cases zone <;> simp [NumberItem.origins, Zone.origin]

/-- **A place before the point** has the glyphs of its slot, separators among
them. There is room for its digits, since the digits left are those of all slots
before the point and its own are among them. -/
theorem piece_integer (h : Ready (.digit .integer placeholder :: items) pending) :
    ∃ glyphs pending',
      spellItem? signs grouping whole exponent (.digit .integer placeholder) pending
        = some (glyphs, pending') ∧ Ready items pending'
      ∧ Piece signs grouping whole exponent (.digit .integer placeholder) pending glyphs
          pending' := by
  obtain ⟨slot, hhead, hrest⟩ := h.exists_slot
  -- the digits still to be printed are those of this place and those of the
  -- places behind it
  have hdigits : pending.digits = slot.countP Char.isDigit
      + ((pending.behind .integer).slots .integer).flatten.countP Char.isDigit := by
    rw [h.digits_eq, ← (hrest .integer).2, if_pos rfl, List.countP_append]
  have hroom : slot.countP Char.isDigit ≤ pending.digits := hdigits ▸ Nat.le_add_right _ _
  obtain ⟨glyphs, left, hsome, hslot⟩ := exists_grouped? (separatorOf signs grouping) hroom
  have hleft := hslot.left_add
  have hslots : ∀ zone, Pending.slots { pending.behind .integer with digits := left } zone
      = (pending.behind .integer).slots zone := by
    rintro (_ | _ | _) <;> rfl
  have hspell : ∀ grouping, spellItem? signs grouping whole exponent
      (.digit .integer placeholder) pending
        = (grouped? (separatorOf signs grouping) pending.digits slot).map fun (glyphs, left) =>
            (glyphs, { pending.behind .integer with digits := left }) := fun grouping => by
    rw [spellItem?, hhead, Option.bind_some, if_pos rfl]
  refine ⟨glyphs, { pending.behind .integer with digits := left }, ?_, ⟨fun zone => ?_, ?_⟩,
    ?_, hslot.origin_mem, rfl, fun zone => ?_, ?_,
    fun more hmore => hslot.isGrouped _ ?_ more hmore⟩
  · rw [hspell, hsome, Option.map_some]
  · rw [hslots, (hrest zone).1]
  · rw [hslots]
    show left = _
    omega
  · rw [writeItem, List.headD_eq_head?_getD, hhead, Option.getD_some, if_pos rfl, hslot.text_eq]
  · have hchars : charsOf zone.origin glyphs = if Zone.integer = zone then slot else [] := by
      rw [← charsOf_ungrouped (by cases zone <;> decide), hslot.ungrouped_eq]
      exact charsOf_origin_glyphs .integer zone slot
    rw [hslots, hchars, (hrest zone).2]
  · rw [hspell, separatorOf, if_neg Bool.false_ne_true, grouped?_none hroom, hslot.ungrouped_eq,
      ← hleft, Nat.add_sub_cancel, Option.map_some]
  · intro c hc
    unfold separatorOf at hc
    split at hc
    · exact (Option.some.inj hc).symm
    · cases hc

/-- **Another place** has its slot, as it is. No separators are put there. -/
theorem piece_place (hzone : zone ≠ .integer)
    (h : Ready (.digit zone placeholder :: items) pending) : ∃ glyphs pending',
    spellItem? signs grouping whole exponent (.digit zone placeholder) pending
        = some (glyphs, pending') ∧ Ready items pending'
      ∧ Piece signs grouping whole exponent (.digit zone placeholder) pending glyphs pending' := by
  obtain ⟨slot, hhead, hrest⟩ := h.exists_slot
  obtain ⟨hsign, hdigits⟩ := sign_digits_behind zone pending
  have hspell : ∀ grouping, spellItem? signs grouping whole exponent (.digit zone placeholder)
      pending = some (zone.origin.glyphs slot, pending.behind zone) := fun grouping => by
    rw [spellItem?, hhead, Option.bind_some, if_neg hzone]
  have hmem : ∀ glyph ∈ zone.origin.glyphs slot,
      glyph.origin ∈ (NumberItem.digit zone placeholder).origins := fun glyph hglyph => by
    rw [Origin.eq_of_mem_glyphs hglyph]
    cases zone with
    | integer => exact absurd rfl hzone
    | fraction | exponent => exact List.mem_singleton_self _
  have hnone : ∀ glyph ∈ zone.origin.glyphs slot, glyph.origin ≠ .separator :=
    fun glyph hglyph heq => separator_notMem_origins
      (fun placeholder hitem => hzone (NumberItem.digit.inj hitem).1) (heq ▸ hmem glyph hglyph)
  refine ⟨_, _, hspell grouping, ⟨fun zone' => (hrest zone').1, ?_⟩, ?_, hmem, hsign,
    fun zone' => ?_, ?_, fun more _ hmore => hmore.append hnone⟩
  · have hflatten := (hrest .integer).2
    rw [if_neg hzone, List.nil_append] at hflatten
    rw [hdigits, h.digits_eq, hflatten]
  · rw [writeItem, List.headD_eq_head?_getD, hhead, Option.getD_some, if_neg hzone, textOf_glyphs]
  · rw [charsOf_origin_glyphs, (hrest zone').2]
  · rw [hspell, ungrouped_eq_self hnone]

/-- **Other pieces** are written as they are, and leave what is still to be
written alone. -/
theorem piece_fixed (h : Ready (item :: items) pending)
    (hfixed : ∀ zone placeholder, item ≠ .digit zone placeholder) : ∃ glyphs pending',
    spellItem? signs grouping whole exponent item pending = some (glyphs, pending')
      ∧ Ready items pending'
      ∧ Piece signs grouping whole exponent item pending glyphs pending' := by
  have hspell : ∀ grouping, spellItem? signs grouping whole exponent item pending
      = some (fixedGlyphs signs whole exponent item, pending) := fun grouping => by
    cases item with
    | digit zone placeholder => exact absurd rfl (hfixed zone placeholder)
    | _ => rfl
  have hmem : ∀ glyph ∈ fixedGlyphs signs whole exponent item, glyph.origin ∈ item.origins := by
    intro glyph hglyph
    cases item with
    | digit zone placeholder => cases hglyph
    | decimalPoint =>
      rcases List.mem_append.1 hglyph with hglyph | hglyph
      · exact List.mem_cons.2 (.inl (Origin.eq_of_mem_glyphs hglyph))
      · obtain rfl := List.mem_singleton.1 hglyph
        exact List.mem_cons_of_mem _ (List.mem_singleton_self _)
    | percent =>
      obtain rfl := List.mem_singleton.1 hglyph
      exact List.mem_singleton_self _
    | exponentMark | currency | literal =>
      exact List.mem_singleton.2 (Origin.eq_of_mem_glyphs hglyph)
  -- no item but a whole place writes separators, so grouping changes nothing
  -- here
  have hnone : ∀ glyph ∈ fixedGlyphs signs whole exponent item, glyph.origin ≠ .separator :=
    fun glyph hglyph heq => separator_notMem_origins (hfixed .integer) (heq ▸ hmem glyph hglyph)
  refine ⟨_, pending, hspell grouping, ⟨fun zone => ?_, h.digits_eq⟩, ?_, hmem, rfl, fun zone => ?_,
    ?_, fun more _ hmore => hmore.append hnone⟩
  · rw [h.length_slots]
    cases item with
    | digit zone placeholder => exact absurd rfl (hfixed zone placeholder)
    | _ => rfl
  · cases item with
    | digit zone placeholder => exact absurd rfl (hfixed zone placeholder)
    | _ => rfl
  · have hplace := place_notMem_origins hfixed zone
    rw [charsOf_eq_nil.2 fun glyph hglyph heq => hplace (by rw [← heq]; exact hmem glyph hglyph),
      List.nil_append]
  · rw [hspell, ungrouped_eq_self hnone]

/-- **Every piece has its glyphs**, and what is still to be written fits the
pieces behind it: the step of the run, by cases on the piece. -/
theorem exists_spellItem? (h : Ready (item :: items) pending) : ∃ glyphs pending',
    spellItem? signs grouping whole exponent item pending = some (glyphs, pending')
      ∧ Ready items pending'
      ∧ Piece signs grouping whole exponent item pending glyphs pending' := by
  cases item with
  | digit zone placeholder =>
    by_cases hzone : zone = .integer
    · subst hzone
      exact piece_integer h
    · exact piece_place hzone h
  | _ => exact piece_fixed h nofun

/-! ## All pieces

What holds of each piece is put together from the back to the front
(`Piece.spelled`), and the sign is put in front of the first piece that the
number begins with. -/

/-- What some pieces write: their text, with all slots, one sign and grouped
digits. It is put together from what each piece writes by `Piece.spelled`. -/
structure Spelled (signs : NumberSigns) (grouping : Bool) (whole : Option (List Char))
    (exponent : ℤ) (items : List NumberItem) (pending : Pending) (glyphs : List Glyph) :
    Prop where
  /-- Their glyphs make up their text. -/
  text_eq : write signs grouping whole exponent items pending = textOf glyphs
  /-- All slots are written. -/
  slots_eq : ∀ zone : Zone, charsOf zone.origin glyphs = (pending.slots zone).flatten
  /-- The sign is written once, if there is a piece the number begins with. -/
  sign_eq : charsOf .sign glyphs
    = if pending.sign && items.any beginsNumber then [signs.negativeSign] else []
  /-- Nothing of the number stands in front of it. -/
  sign_first : SignFirst glyphs
  /-- Without grouping they write the same without the separators. -/
  ungrouped_eq : spellItems? signs false whole exponent items pending = some (ungrouped glyphs)
  /-- Digits are grouped. -/
  isGrouped : Grouped signs.groupSeparator glyphs

theorem origin_of_mem_signGlyphs {glyph : Glyph} (h : glyph ∈ signGlyphs signs item pending) :
    glyph.origin = .sign := by
  unfold signGlyphs at h
  split at h
  · obtain rfl := List.mem_singleton.1 h
    rfl
  · cases h

/-- **The sign stands before the first piece of the number.** A sign that is
already written is not written again, which is what `hsign` says of the glyphs
behind. -/
theorem signFirst_cons (hmem : ∀ glyph ∈ glyphs, glyph.origin ∈ item.origins)
    (hmore : SignFirst more)
    (hsign : (pending.sign && !beginsNumber item) = false → charsOf .sign more = []) :
    SignFirst (signGlyphs signs item pending ++ (glyphs ++ more)) := by
  have hnone : ∀ glyph ∈ glyphs, glyph.origin ≠ .sign := fun glyph hglyph heq =>
    sign_notMem_origins item (heq ▸ hmem glyph hglyph)
  -- of a sign and what stands before it, one is in front of the piece, or the other behind it
  have hpiece : SignFirst glyphs :=
    List.pairwise_of_forall_mem_list fun _ _ later hlater heq => absurd heq (hnone later hlater)
  refine List.pairwise_append.2 ⟨?_, List.pairwise_append.2 ⟨hpiece, hmore, ?_⟩, ?_⟩
  · exact List.pairwise_of_forall_mem_list fun glyph hglyph _ _ _ => by
      rw [origin_of_mem_signGlyphs hglyph]
      rfl
  · intro glyph hglyph later hlater heq
    have hpending : ¬(pending.sign && !beginsNumber item) = false := fun hdone =>
      charsOf_eq_nil.1 (hsign hdone) later hlater heq
    rw [Bool.not_eq_false, Bool.and_eq_true, Bool.not_eq_true'] at hpending
    exact ofNumber_of_mem_origins hpending.2 (hmem glyph hglyph)
  · intro glyph hglyph _ _ _
    rw [origin_of_mem_signGlyphs hglyph]
    rfl

theorem Spelled.digits_eq (h : Spelled signs grouping whole exponent items pending glyphs)
    (hready : Ready items pending) : digits glyphs = pending.digits := by
  rw [hready.digits_eq, ← h.slots_eq, digits]
  rfl

theorem spellItems?_cons
    (hitem : spellItem? signs grouping whole exponent item (pending.signed item)
      = some (glyphs, pending'))
    (hmore : spellItems? signs grouping whole exponent items pending' = some more) :
    spellItems? signs grouping whole exponent (item :: items) pending
      = some (signGlyphs signs item pending ++ (glyphs ++ more)) := by
  rw [spellItems?, hitem, Option.bind_some]
  dsimp only
  rw [hmore, Option.map_some]

/-- **One more piece in front** of pieces that are spelled, field by field. -/
theorem Piece.spelled
    (hpiece : Piece signs grouping whole exponent item (pending.signed item) glyphs pending')
    (hready : Ready items pending')
    (hmore : Spelled signs grouping whole exponent items pending' more) :
    Spelled signs grouping whole exponent (item :: items) pending
      (signGlyphs signs item pending ++ (glyphs ++ more)) := by
  -- the sign is written before the item; after it, it is pending only where the
  -- item does not begin the number
  have hsigned : pending'.sign = (pending.sign && !beginsNumber item) := hpiece.sign_eq
  have hnone : charsOf .sign glyphs = [] := charsOf_eq_nil.2 fun glyph hglyph heq =>
    sign_notMem_origins item (heq ▸ hpiece.origin_mem glyph hglyph)
  refine ⟨?_, fun zone => ?_, ?_, signFirst_cons hpiece.origin_mem hmore.sign_first fun hdone => ?_,
    ?_, ?_⟩
  · rw [write_cons, hpiece.text_eq, hmore.text_eq, textOf_append, textOf_append]
  · have hsign : charsOf zone.origin (signGlyphs signs item pending) = [] :=
      charsOf_eq_nil.2 fun glyph hglyph heq => by
        rw [origin_of_mem_signGlyphs hglyph] at heq
        cases zone <;> cases heq
    rw [charsOf_append, charsOf_append, hsign, List.nil_append, hmore.slots_eq, hpiece.slots_eq]
    exact congrArg List.flatten (slots_signed zone)
  · rw [charsOf_append, charsOf_append, hnone, List.nil_append, hmore.sign_eq, hsigned,
      List.any_cons, signGlyphs]
    cases pending.sign <;> cases beginsNumber item <;> cases items.any beginsNumber <;> rfl
  · rw [hmore.sign_eq, hsigned, hdone]
    rfl
  · have hsign : ungrouped (signGlyphs signs item pending) = signGlyphs signs item pending :=
      ungrouped_eq_self fun glyph hglyph heq => by
        rw [origin_of_mem_signGlyphs hglyph] at heq
        cases heq
    rw [spellItems?_cons hpiece.ungrouped_eq hmore.ungrouped_eq, ungrouped_append,
      ungrouped_append, hsign]
  · refine (hpiece.isGrouped more (hmore.digits_eq hready) hmore.isGrouped).append
      fun glyph hglyph heq => ?_
    rw [origin_of_mem_signGlyphs hglyph] at heq
    cases heq

/-- **Pieces are spelled** when what is to be written fits them, by induction on
the pieces. -/
theorem exists_spellItems? (h : Ready items pending) : ∃ glyphs,
    spellItems? signs grouping whole exponent items pending = some glyphs
      ∧ Spelled signs grouping whole exponent items pending glyphs := by
  induction items generalizing pending with
  | nil =>
    have hslots : ∀ zone, pending.slots zone = [] := fun zone =>
      List.eq_nil_of_length_eq_zero (h.length_slots zone)
    refine ⟨[], rfl, rfl, fun zone => ?_, ?_, List.Pairwise.nil, rfl, fun c back hback => ?_⟩
    · rw [hslots]
      rfl
    · rw [List.any_nil, Bool.and_false]
      rfl
    · cases List.suffix_nil.1 hback
  | cons item items ih =>
    obtain ⟨glyphs, pending', hsome, hready, hpiece⟩ := exists_spellItem? (h.signed item)
    obtain ⟨more, hmore, hspelled⟩ := ih hready
    exact ⟨_, spellItems?_cons hsome hmore, hpiece.spelled hready hspelled⟩

/-- Of a piece that is no place everything is fixed, and of a place nothing. -/
theorem Piece.filter_isFixed
    (h : Piece signs grouping whole exponent item pending glyphs pending')
    (hspell : spellItem? signs grouping whole exponent item pending = some (glyphs, pending')) :
    glyphs.filter (fun glyph => glyph.origin.isFixed) = fixedGlyphs signs whole exponent item := by
  by_cases hfixed : ∀ zone placeholder, item ≠ .digit zone placeholder
  · have hown : fixedGlyphs signs whole exponent item = glyphs := by
      cases item with
      | digit zone placeholder => exact absurd rfl (hfixed zone placeholder)
      | _ => exact (Prod.mk.inj (Option.some.inj hspell)).1
    rw [hown]
    exact List.filter_eq_self.2 fun glyph hglyph =>
      (isFixed_of_mem_origins (h.origin_mem glyph hglyph)).2 hfixed
  · have hnone : fixedGlyphs signs whole exponent item = [] := by
      cases item with
      | digit => rfl
      | _ => exact absurd nofun hfixed
    rw [hnone]
    exact List.filter_eq_nil_iff.2 fun glyph hglyph =>
      mt (isFixed_of_mem_origins (h.origin_mem glyph hglyph)).1 hfixed

/-- **Apart from the sign, the places and the separators**, the pieces are
written as they are, in their order. So what belongs to the locale can be read
off the pieces alone. -/
theorem filter_isFixed_of_spellItems? (hready : Ready items pending)
    (h : spellItems? signs grouping whole exponent items pending = some glyphs) :
    glyphs.filter (fun glyph => glyph.origin.isFixed)
      = items.flatMap (fixedGlyphs signs whole exponent) := by
  induction items generalizing pending glyphs with
  | nil =>
    obtain rfl := Option.some.inj h
    rfl
  | cons item items ih =>
    obtain ⟨own, pending', hsome, hready', hpiece⟩ := exists_spellItem? (hready.signed item)
    obtain ⟨more, hmore, -⟩ := exists_spellItems? hready'
    obtain rfl := Option.some.inj ((spellItems?_cons hsome hmore).symm.trans h)
    have hsign : (signGlyphs signs item pending).filter (fun glyph => glyph.origin.isFixed) = [] :=
      List.filter_eq_nil_iff.2 fun glyph hglyph => by
        rw [origin_of_mem_signGlyphs hglyph]
        exact Bool.false_ne_true
    rw [List.filter_append, List.filter_append, hsign, List.nil_append, hpiece.filter_isFixed hsome,
      ih hready' hmore, List.flatMap_cons]

end NumberSection

end Worksheet.Format
