import Mathlib.Data.Nat.Notation
import Worksheet.Format.Number

/-!
# Characters and what they belong to

A number section writes the slots of its places, separators between them, a
sign, and its literal texts, and in the result they cannot be told apart any
more. Here each character is kept together with what it belongs to (`Glyph`), so
that the text, what belongs to one thing, and the glyphs without separators can
be read off. Separators group digits by three when behind each of them there are
three digits, or six, and so on (`Glyph.Grouped`).

The slots before the point are written with separators between their digits, as
long as there are no more digits than should be left
(`NumberSection.exists_grouped?`).
-/

namespace Worksheet.Format

open Pattern

/-! ## Glyphs

A formatted number is a list of glyphs, and everything that is said of its text
is said of the characters of one origin (`charsOf`), of the glyphs without
separators (`ungrouped`), or of the order in which they stand (`Grouped`,
`SignFirst`). -/

/-- **What a character of a formatted number belongs to.** The text alone does
not tell: a literal may be a digit, and a group separator may be the point of
another locale. -/
inductive Origin where
  /-- The sign of the number. -/
  | sign
  /-- A place before the point. -/
  | integer
  /-- A separator between digits before the point. -/
  | separator
  /-- The digits before a point that has no places before it. -/
  | whole
  | point
  /-- A place behind the point. -/
  | fraction
  /-- The exponent symbol and the sign of the exponent. -/
  | exponentMark
  /-- A place of the exponent. -/
  | exponent
  | percent
  | currency
  | literal
  deriving DecidableEq

/-- Whether a character belongs to the number, which the sign stands before.
Literals and symbols may stand in front of the sign. -/
def Origin.ofNumber : Origin → Bool
  | .integer | .separator | .whole | .point | .fraction => true
  | _ => false

/-- Whether a character belongs to a piece that is no place for a digit. What
these pieces write does not depend on the digits. -/
def Origin.isFixed : Origin → Bool
  | .whole | .point | .exponentMark | .percent | .currency | .literal => true
  | _ => false

/-- **A character and what it belongs to.** -/
structure Glyph where
  origin : Origin
  char : Char
  deriving DecidableEq

/-- The characters of a text, which all belong to the same. -/
def Origin.glyphs (origin : Origin) (text : List Char) : List Glyph :=
  text.map fun c => ⟨origin, c⟩

theorem Origin.eq_of_mem_glyphs {origin : Origin} {text : List Char} {glyph : Glyph}
    (h : glyph ∈ origin.glyphs text) : glyph.origin = origin := by
  obtain ⟨c, -, rfl⟩ := List.mem_map.1 h
  rfl

namespace Glyph

/-- The text some glyphs make up. -/
def textOf (glyphs : List Glyph) : List Char :=
  glyphs.map Glyph.char

/-- The characters that belong to something. -/
def charsOf (origin : Origin) (glyphs : List Glyph) : List Char :=
  textOf (glyphs.filter fun glyph => glyph.origin = origin)

/-- The glyphs without the separators. -/
def ungrouped (glyphs : List Glyph) : List Glyph :=
  glyphs.filter fun glyph => glyph.origin ≠ .separator

/-- How many digits there are at the places before the point. -/
def digits (glyphs : List Glyph) : ℕ :=
  (charsOf .integer glyphs).countP Char.isDigit

@[simp] theorem textOf_append (glyphs more : List Glyph) :
    textOf (glyphs ++ more) = textOf glyphs ++ textOf more :=
  List.map_append

@[simp] theorem textOf_glyphs (origin : Origin) (text : List Char) :
    textOf (origin.glyphs text) = text := by
  rw [textOf, Origin.glyphs, List.map_map]
  exact List.map_id _

@[simp] theorem charsOf_append (origin : Origin) (glyphs more : List Glyph) :
    charsOf origin (glyphs ++ more) = charsOf origin glyphs ++ charsOf origin more := by
  rw [charsOf, List.filter_append, textOf_append, charsOf, charsOf]

theorem charsOf_glyphs (origin origin' : Origin) (text : List Char) :
    charsOf origin (origin'.glyphs text) = if origin' = origin then text else [] := by
  split
  · rename_i h
    rw [charsOf, List.filter_eq_self.2 fun glyph hglyph => decide_eq_true
      ((Origin.eq_of_mem_glyphs hglyph).trans h), textOf_glyphs]
  · rename_i h
    rw [charsOf, List.filter_eq_nil_iff.2 fun glyph hglyph => by
      rwa [Origin.eq_of_mem_glyphs hglyph, decide_eq_true_eq]]
    rfl

theorem charsOf_eq_nil {origin : Origin} {glyphs : List Glyph} :
    charsOf origin glyphs = [] ↔ ∀ glyph ∈ glyphs, glyph.origin ≠ origin := by
  rw [charsOf, textOf, List.map_eq_nil_iff, List.filter_eq_nil_iff]
  simp only [decide_eq_true_eq, ne_eq]

theorem mem_charsOf {origin : Origin} {glyphs : List Glyph} {c : Char} :
    c ∈ charsOf origin glyphs ↔ ⟨origin, c⟩ ∈ glyphs := by
  constructor
  · intro h
    obtain ⟨⟨_, _⟩, hglyph, rfl⟩ := List.mem_map.1 h
    obtain ⟨hmem, horigin⟩ := List.mem_filter.1 hglyph
    exact of_decide_eq_true horigin ▸ hmem
  · exact fun h => List.mem_map.2 ⟨_, List.mem_filter.2 ⟨h, decide_eq_true rfl⟩, rfl⟩

@[simp] theorem ungrouped_append (glyphs more : List Glyph) :
    ungrouped (glyphs ++ more) = ungrouped glyphs ++ ungrouped more :=
  List.filter_append _ _

theorem ungrouped_eq_self {glyphs : List Glyph}
    (h : ∀ glyph ∈ glyphs, glyph.origin ≠ .separator) : ungrouped glyphs = glyphs :=
  List.filter_eq_self.2 fun glyph hglyph => decide_eq_true (h glyph hglyph)

/-- What belongs to something stays when other glyphs are left out. -/
theorem charsOf_filter {origin : Origin} {p : Glyph → Bool}
    (h : ∀ glyph, glyph.origin = origin → p glyph = true) (glyphs : List Glyph) :
    charsOf origin (glyphs.filter p) = charsOf origin glyphs := by
  rw [charsOf, List.filter_filter, charsOf]
  congr 2
  funext glyph
  by_cases horigin : glyph.origin = origin
  · rw [h glyph horigin, Bool.and_true]
  · rw [decide_eq_false horigin, Bool.false_and]

theorem charsOf_ungrouped {origin : Origin} (h : origin ≠ .separator) (glyphs : List Glyph) :
    charsOf origin (ungrouped glyphs) = charsOf origin glyphs :=
  charsOf_filter (fun _ horigin => decide_eq_true (horigin ▸ h)) glyphs

/-- **Digits are grouped by three**: behind each separator there are three
digits before the point, or six, and so on. What stands between a separator and
the next digit is left open, as literals may. -/
def Grouped (mark : Char) (glyphs : List Glyph) : Prop :=
  ∀ c back, ⟨.separator, c⟩ :: back <:+ glyphs → c = mark ∧ 0 < digits back ∧ 3 ∣ digits back

/-- **The sign stands before the number**: nothing that belongs to the number
comes before a glyph of the sign. -/
def SignFirst (glyphs : List Glyph) : Prop :=
  glyphs.Pairwise fun glyph later => later.origin = .sign → glyph.origin.ofNumber = false

variable {mark : Char} {glyphs more : List Glyph}

theorem Grouped.cons {glyph : Glyph} (h : Grouped mark glyphs)
    (hother : glyph.origin ≠ .separator) : Grouped mark (glyph :: glyphs) := by
  intro c back hback
  rcases List.suffix_cons_iff.1 hback with heq | hback
  · exact absurd (congrArg Glyph.origin (List.cons.inj heq).1).symm hother
  · exact h c back hback

theorem Grouped.append (h : Grouped mark more)
    (hother : ∀ glyph ∈ glyphs, glyph.origin ≠ .separator) : Grouped mark (glyphs ++ more) := by
  induction glyphs with
  | nil => exact h
  | cons glyph glyphs ih =>
    obtain ⟨hglyph, hothers⟩ := List.forall_mem_cons.1 hother
    exact (ih hothers).cons hglyph

/-- A separator may stand in front of glyphs that are grouped, when three digits
or a multiple of them follow. -/
theorem Grouped.separator (h : Grouped mark glyphs) (hpos : 0 < digits glyphs)
    (hthree : 3 ∣ digits glyphs) : Grouped mark (⟨.separator, mark⟩ :: glyphs) := by
  intro c back hback
  rcases List.suffix_cons_iff.1 hback with heq | hback
  · obtain ⟨hglyph, rfl⟩ := List.cons.inj heq
    exact ⟨(Glyph.mk.inj hglyph).2, hpos, hthree⟩
  · exact h c back hback

end Glyph

open Glyph

namespace NumberSection

/-! ## One slot

The digits before a point are counted down as they are written, and a separator
is put where the count behind a digit is a multiple of three. `Slot` says what
one slot writes, in a form in which slots can be put side by side. -/

def separatorAt (separator : Option Char) (left : ℕ) : List Glyph :=
  match separator with
  | some mark => if 0 < left ∧ left % 3 = 0 then [⟨.separator, mark⟩] else []
  | none => []

/-- **The glyphs of a slot before the point**, and how many digits are left
behind it. It runs as `grouped` does, but there is no result when there are more
digits than should be left, where `grouped` would go on as if none were. -/
def grouped? (separator : Option Char) : ℕ → List Char → Option (List Glyph × ℕ)
  | remaining, [] => some ([], remaining)
  | remaining, c :: rest =>
    if c.isDigit then
      if remaining = 0 then none
      else
        (grouped? separator (remaining - 1) rest).map fun (more, final) =>
          (⟨.integer, c⟩ :: separatorAt separator (remaining - 1) ++ more, final)
    else
      (grouped? separator remaining rest).map fun (more, final) => (⟨.integer, c⟩ :: more, final)

/-- What the glyphs of a slot are. The last field is what lets slots be put
together: the digits behind a slot decide where its separators are. -/
structure Slot (separator : Option Char) (remaining : ℕ) (text : List Char) (glyphs : List Glyph)
    (left : ℕ) : Prop where
  /-- They make up what is written. -/
  text_eq : grouped separator remaining text = (textOf glyphs, left)
  /-- Apart from the separators they are the slot. -/
  ungrouped_eq : ungrouped glyphs = Origin.integer.glyphs text
  /-- As many digits are left as there were less. -/
  left_add : left + text.countP Char.isDigit = remaining
  /-- There are separators before multiples of three digits. -/
  isGrouped : ∀ mark, (∀ c ∈ separator, c = mark) → ∀ more, digits more = left →
    Grouped mark more → Grouped mark (glyphs ++ more)

variable {separator : Option Char} {remaining left : ℕ} {text rest : List Char}
  {glyphs more : List Glyph}

/-- Only separators are put between digits, so nothing of them is left without
the separators. -/
theorem ungrouped_separatorAt (separator : Option Char) (left : ℕ) :
    ungrouped (separatorAt separator left) = [] := by
  unfold separatorAt
  split
  · split <;> rfl
  · rfl

theorem textOf_separatorAt (separator : Option Char) (left : ℕ) :
    textOf (separatorAt separator left)
      = match separator with
        | some mark => if 0 < left ∧ left % 3 = 0 then [mark] else []
        | none => [] := by
  unfold separatorAt
  split
  · split <;> rfl
  · rfl

theorem grouped_separatorAt {mark : Char} (hmark : ∀ c ∈ separator, c = mark)
    (hdigits : digits more = left) (h : Grouped mark more) :
    Grouped mark (separatorAt separator left ++ more) := by
  cases separator with
  | none => exact h
  | some c =>
    obtain rfl := hmark c rfl
    unfold separatorAt
    dsimp only
    split
    · rename_i hleft
      exact h.separator (hdigits.symm ▸ hleft.1)
        (Nat.dvd_of_mod_eq_zero (hdigits.symm ▸ hleft.2))
    · exact h

theorem Slot.origin_mem (h : Slot separator remaining text glyphs left) :
    ∀ glyph ∈ glyphs, glyph.origin ∈ [Origin.integer, .separator] := by
  intro glyph hglyph
  by_cases hseparator : glyph.origin = .separator
  · exact List.mem_cons_of_mem _ (List.mem_singleton.2 hseparator)
  · have hmem : glyph ∈ ungrouped glyphs := List.mem_filter.2 ⟨hglyph, decide_eq_true hseparator⟩
    rw [h.ungrouped_eq] at hmem
    exact List.mem_cons.2 (.inl (Origin.eq_of_mem_glyphs hmem))

theorem Slot.charsOf_integer (h : Slot separator remaining text glyphs left) :
    charsOf .integer glyphs = text := by
  rw [← charsOf_ungrouped (by decide), h.ungrouped_eq, charsOf_glyphs, if_pos rfl]

/-- A digit in front of a slot, and a separator behind it where one belongs. -/
theorem Slot.digit {c : Char} (hc : c.isDigit = true)
    (h : Slot separator remaining rest more left) :
    Slot separator (remaining + 1) (c :: rest)
      (⟨.integer, c⟩ :: separatorAt separator remaining ++ more) left := by
  refine ⟨?_, ?_, ?_, fun mark hmark behind hbehind hgrouped => ?_⟩
  · rw [grouped, if_pos hc]
    simp only [Nat.add_sub_cancel, h.text_eq]
    refine Prod.ext ?_ rfl
    show _ = c :: textOf (separatorAt separator remaining ++ more)
    rw [textOf_append, textOf_separatorAt]
    rfl
  · rw [List.cons_append]
    show ⟨.integer, c⟩ :: ungrouped (separatorAt separator remaining ++ more) = _
    rw [ungrouped_append, ungrouped_separatorAt, List.nil_append, h.ungrouped_eq]
    rfl
  · rw [List.countP_cons_of_pos hc, ← h.left_add, Nat.add_assoc]
  · have hdigits : digits (more ++ behind) = remaining := by
      rw [digits, charsOf_append, h.charsOf_integer, List.countP_append, ← h.left_add, ← hbehind,
        Nat.add_comm, digits]
    rw [List.cons_append, List.cons_append, List.append_assoc]
    exact (grouped_separatorAt hmark hdigits (h.isGrouped mark hmark behind hbehind hgrouped)).cons
      nofun

/-- A character that is no digit in front of a slot, as a place shows for a
digit that it lacks. -/
theorem Slot.other {c : Char} (hc : c.isDigit = false)
    (h : Slot separator remaining rest more left) :
    Slot separator remaining (c :: rest) (⟨.integer, c⟩ :: more) left := by
  refine ⟨?_, ?_, ?_, fun mark hmark behind hbehind hgrouped => ?_⟩
  · rw [grouped, if_neg (by simp [hc])]
    simp only [h.text_eq]
    rfl
  · show ⟨.integer, c⟩ :: ungrouped more = _
    rw [h.ungrouped_eq]
    rfl
  · rw [List.countP_cons_of_neg (by simp [hc]), h.left_add]
  · exact (h.isGrouped mark hmark behind hbehind hgrouped).cons nofun

/-- **A slot has glyphs** when there are no more digits in it than should be
left. The induction is on the characters of the slot, with `Slot.digit` and
`Slot.other` as its two steps. -/
theorem exists_grouped? (separator : Option Char)
    (h : text.countP Char.isDigit ≤ remaining) :
    ∃ glyphs left, grouped? separator remaining text = some (glyphs, left) ∧
      Slot separator remaining text glyphs left := by
  induction text generalizing remaining with
  | nil => exact ⟨[], remaining, rfl, rfl, rfl, rfl, fun _ _ _ _ h => h⟩
  | cons c rest ih =>
    by_cases hc : c.isDigit = true
    · rw [List.countP_cons_of_pos hc] at h
      obtain ⟨left, rfl⟩ := Nat.exists_eq_add_one.2 (Nat.zero_lt_of_lt h)
      obtain ⟨glyphs, final, hsome, hslot⟩ := ih (Nat.le_of_succ_le_succ h)
      refine ⟨_, final, ?_, hslot.digit hc⟩
      rw [grouped?, if_pos hc, if_neg (Nat.succ_ne_zero left), Nat.add_sub_cancel, hsome]
      rfl
    · rw [List.countP_cons_of_neg hc] at h
      obtain ⟨glyphs, left, hsome, hslot⟩ := ih h
      refine ⟨⟨.integer, c⟩ :: glyphs, left, ?_, hslot.other (Bool.eq_false_iff.2 hc)⟩
      rw [grouped?, if_neg hc, hsome]
      rfl

theorem grouped?_none (h : text.countP Char.isDigit ≤ remaining) :
    grouped? none remaining text
      = some (Origin.integer.glyphs text, remaining - text.countP Char.isDigit) := by
  induction text generalizing remaining with
  | nil => rfl
  | cons c rest ih =>
    rw [grouped?]
    by_cases hc : c.isDigit = true
    · rw [List.countP_cons_of_pos hc] at h ⊢
      rw [if_pos hc, if_neg (by omega), ih (by omega), Option.map_some, Nat.sub_sub, Nat.add_comm]
      rfl
    · rw [List.countP_cons_of_neg hc] at h ⊢
      rw [if_neg hc, ih h]
      rfl

end NumberSection

end Worksheet.Format
