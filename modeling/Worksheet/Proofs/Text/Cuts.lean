import Mathlib.Data.List.Infix
import Mathlib.Data.List.TakeWhile
import Worksheet.Proofs.Answers
import Worksheet.Proofs.Text.Bytes
import Worksheet.Proofs.Text.Case
import Worksheet.Text.Cursor

/-!
# Cutting a text at byte offsets

A reader that keeps a byte offset cuts the text there whenever it looks ahead,
and a cut inside a character or past the end breaks (`BrokenCut`). The
operations here are done by offsets and report a broken cut. Where a rest of the
text stands at the offset (`StandsAt`) none breaks, and each does what the
operation on the rest does: `peekAt_eq`, `eatAt_cons`, `eatTextAt_eq`,
`runLength_eq`.

What makes a name safe to compare is that its length is checked to be a boundary
first (`eatTextAt`), and what makes a run of ASCII characters safe is that each
of them is one byte.
-/

namespace Worksheet.Text

/-- The text from an offset up to another, cut at both. -/
def cutRange (whole : List Char) (start stop : ℕ) : Except BrokenCut (List Char) :=
  (cutFrom whole start).bind fun rest => cutTo rest (stop - start)

/-- The byte at an offset, as the character of that number. -/
def byteAt? (whole : List Char) (offset : ℕ) : Option Char :=
  (bytes whole)[offset]?.map fun byte => Char.ofNat byte.toNat

/-- How many bytes before the first place where a text goes on with another. -/
def find? (needle : List Char) : List Char → Option ℕ
  | [] => if needle = [] then some 0 else none
  | c :: rest =>
    if (drop? needle (c :: rest)).isSome then some 0
    else (find? needle rest).map (c.utf8Size + ·)

/-- How many bytes of a class there are at the front of a text, among the first
so many. -/
def runLength (p : Char → Bool) (limit : ℕ) (text : List Char) : ℕ :=
  (((bytes text).take limit).takeWhile (onBytes p)).length

theorem length_le_byteLength (text : List Char) : text.length ≤ byteLength text := by
  induction text with
  | nil => exact Nat.le_refl _
  | cons c rest ih =>
    have hpos := c.utf8Size_pos
    rw [List.length_cons, byteLength_cons]
    omega

/-! ## Rests at offsets

`StandsAt` relates an offset to a rest of the text. Operations on offsets are
proved equal to operations on rests under it, and what they leave stands at an
offset again. -/

/-- **A rest of a text stands at an offset**: the bytes in front of it are as
many. -/
def StandsAt (whole : List Char) (offset : ℕ) (rest : List Char) : Prop :=
  fromByte? offset whole = some rest

variable {whole front text rest name : List Char} {offset : ℕ} {c d : Char}

theorem standsAt_iff : StandsAt whole offset rest ↔
    ∃ front, whole = front ++ rest ∧ byteLength front = offset :=
  fromByte?_eq_some_iff

theorem standsAt_zero (whole : List Char) : StandsAt whole 0 whole :=
  standsAt_iff.2 ⟨[], rfl, rfl⟩

namespace StandsAt

/-- Behind something of a rest stands what follows it. -/
theorem append (h : StandsAt whole offset (front ++ rest)) :
    StandsAt whole (offset + byteLength front) rest := by
  obtain ⟨taken, rfl, rfl⟩ := standsAt_iff.1 h
  exact standsAt_iff.2 ⟨taken ++ front, (List.append_assoc ..).symm, byteLength_append ..⟩

theorem cons (h : StandsAt whole offset (c :: rest)) :
    StandsAt whole (offset + c.utf8Size) rest :=
  (show StandsAt whole offset ([c] ++ rest) from h).append

theorem cons_of_lt (h : StandsAt whole offset (c :: rest)) (hc : c.toNat < 128) :
    StandsAt whole (offset + 1) rest := by
  have hrest := (show StandsAt whole offset ([c] ++ rest) from h).append
  rwa [byteLength_of_all (List.forall_mem_singleton.2 hc), List.length_singleton] at hrest

/-- An offset is the position of the rest that stands there. -/
theorem position_eq (h : StandsAt whole offset rest) : position whole rest = offset := by
  obtain ⟨taken, rfl, rfl⟩ := standsAt_iff.1 h
  exact position_append taken rest

theorem add_byteLength (h : StandsAt whole offset rest) :
    offset + byteLength rest = byteLength whole := by
  obtain ⟨taken, rfl, rfl⟩ := standsAt_iff.1 h
  exact (byteLength_append ..).symm

/-- **What is left of a rest stands at its own position.** It is what lets one
operation follow another. -/
theorem suffix (h : StandsAt whole offset text) (hrest : rest <:+ text) :
    StandsAt whole (position whole rest) rest := by
  obtain ⟨taken, rfl⟩ := hrest
  rw [h.append.position_eq]
  exact h.append

theorem position_append_eq (h : StandsAt whole offset (front ++ rest)) :
    position whole rest = offset + byteLength front :=
  h.append.position_eq

theorem cutFrom_eq (h : StandsAt whole offset rest) : cutFrom whole offset = .ok rest := by
  unfold cutFrom
  rw [show fromByte? offset whole = some rest from h]

theorem isAtEnd_eq (h : StandsAt whole offset rest) : isAtEnd whole offset = rest.isEmpty := by
  have hsum := h.add_byteLength
  rw [isAtEnd, Bool.eq_iff_iff, decide_eq_true_iff, List.isEmpty_iff]
  constructor
  · intro hend
    exact byteLength_eq_zero.1 (by omega)
  · rintro rfl
    exact hsum.ge

theorem of_cutFrom (h : cutFrom whole offset = .ok rest) : StandsAt whole offset rest := by
  unfold cutFrom at h
  split at h
  · rename_i hrest
    obtain rfl := Except.ok.inj h
    exact hrest
  · cases h

theorem cutTo_eq (h : StandsAt whole offset rest) :
    cutTo whole offset = .ok (before whole rest) := by
  rw [cutTo, h.cutFrom_eq]
  rfl

theorem lt_byteLength (h : StandsAt whole offset (c :: rest)) : offset < byteLength whole := by
  have hsum := h.add_byteLength
  have hpos := c.utf8Size_pos
  rw [byteLength_cons] at hsum
  omega

theorem cutRange_eq (h : StandsAt whole offset (front ++ rest)) :
    cutRange whole offset (offset + byteLength front) = .ok front := by
  have hfront : StandsAt (front ++ rest) (byteLength front) rest :=
    standsAt_iff.2 ⟨front, rfl, rfl⟩
  rw [cutRange, h.cutFrom_eq, Nat.add_sub_cancel_left]
  exact hfront.cutTo_eq.trans (congrArg Except.ok (before_append front rest))

theorem drop_bytes (h : StandsAt whole offset rest) : (bytes whole).drop offset = bytes rest := by
  obtain ⟨taken, rfl, rfl⟩ := standsAt_iff.1 h
  rw [bytes_append, ← length_bytes, List.drop_left]

theorem byteAt?_eq (h : StandsAt whole offset rest) :
    byteAt? whole offset = (bytes rest).head?.map fun byte => Char.ofNat byte.toNat := by
  rw [byteAt?, ← h.drop_bytes, List.head?_drop]

theorem byteAt?_nil (h : StandsAt whole offset []) : byteAt? whole offset = none :=
  h.byteAt?_eq

/-- **The byte of an ASCII character** is that character. -/
theorem byteAt?_of_lt (h : StandsAt whole offset (c :: rest)) (hc : c.toNat < 128) :
    byteAt? whole offset = some c := by
  rw [h.byteAt?_eq, bytes_cons, utf8EncodeChar_of_lt hc, List.singleton_append, List.head?_cons,
    Option.map_some, UInt8.toNat_ofNat', Nat.mod_eq_of_lt (by omega), Char.ofNat_toNat]

/-- **The first byte of any other character** is no ASCII character, so it is
never taken for one. -/
theorem le_of_byteAt? (h : StandsAt whole offset (c :: rest)) (hc : 128 ≤ c.toNat)
    (hbyte : byteAt? whole offset = some d) : 128 ≤ d.toNat := by
  obtain ⟨byte, more, hbytes, hmem⟩ := exists_bytes_cons c rest
  rw [h.byteAt?_eq, hbytes, List.head?_cons, Option.map_some] at hbyte
  rw [← Option.some.inj hbyte, toNat_ofNat_byte]
  exact le_of_mem_utf8EncodeChar hc hmem

/-- An ASCII character is what comes next when it is the next byte. -/
theorem byteAt?_eq_some_iff (h : StandsAt whole offset text) (hd : d.toNat < 128) :
    byteAt? whole offset = some d ↔ text.head? = some d := by
  cases text with
  | nil => rw [h.byteAt?_nil, List.head?_nil]
  | cons c rest =>
    by_cases hc : c.toNat < 128
    · rw [h.byteAt?_of_lt hc, List.head?_cons]
    · refine iff_of_false (fun hbyte => ?_) fun hhead => hc ?_
      · exact absurd (h.le_of_byteAt? (Nat.le_of_not_lt hc) hbyte) (Nat.not_le.2 hd)
      · rw [Option.some.inj hhead]
        exact hd

/-- A class of ASCII characters has the next character when it has the next
byte. -/
theorem any_byteAt? {p : Char → Bool} (h : StandsAt whole offset text) (hp : IsAscii p) :
    (byteAt? whole offset).any p = text.head?.any p := by
  cases text with
  | nil => rw [h.byteAt?_nil, List.head?_nil]
  | cons c rest =>
    by_cases hc : c.toNat < 128
    · rw [h.byteAt?_of_lt hc, List.head?_cons]
    · have hfalse : p c = false := Bool.eq_false_iff.2 fun hpc => hc (hp c hpc)
      rw [List.head?_cons, Option.any_some, hfalse, Bool.eq_false_iff, ne_eq, Option.any_eq_true]
      rintro ⟨d, hbyte, hpd⟩
      exact absurd (hp d hpd) (Nat.not_lt.2 (h.le_of_byteAt? (Nat.le_of_not_lt hc) hbyte))

theorem peekAt_eq (h : StandsAt whole offset rest) : peekAt whole offset = .ok rest.head? := by
  rw [peekAt, h.cutFrom_eq]
  rfl

theorem eatAt_nil (h : StandsAt whole offset []) : eatAt whole c offset = .ok none := by
  rw [eatAt, h.peekAt_eq]
  rfl

theorem eatAt_cons (h : StandsAt whole offset (d :: rest)) :
    eatAt whole c offset = .ok (if d = c then some (position whole rest) else none) := by
  rw [eatAt, h.peekAt_eq, h.cons.position_eq]
  simp only [List.head?_cons, Option.some.injEq, Except.map]
  split
  · rename_i heq
    rw [heq]
  · rfl

end StandsAt

/-! ## Names

A name is compared by cutting as many bytes as it has and then changing the
case of both. Since changing the case leaves the length of a character alone, a
cut that breaks means that the name is not there. -/

/-- **A name is dropped** when the text begins with it but for the case. -/
theorem dropIgnoringCase?_eq_some_iff :
    dropIgnoringCase? name text = some rest ↔
      ∃ front, text = front ++ rest ∧ front.map Char.toUpper = name.map Char.toUpper := by
  induction name generalizing text with
  | nil =>
    simp only [dropIgnoringCase?, Option.some.injEq, List.map_nil, List.map_eq_nil_iff]
    constructor
    · rintro rfl
      exact ⟨[], rfl, rfl⟩
    · rintro ⟨front, rfl, rfl⟩
      rfl
  | cons n name ih =>
    constructor
    · intro h
      cases text with
      | nil => cases h
      | cons c text =>
        rw [dropIgnoringCase?] at h
        split at h
        · rename_i hc
          -- the front is as long as the name, though not spelled as it is
          obtain ⟨front, rfl, hfront⟩ := ih.1 h
          exact ⟨c :: front, rfl, by rw [List.map_cons, List.map_cons, hfront, hc]⟩
        · cases h
    · rintro ⟨front, rfl, hfront⟩
      cases front with
      | nil => cases hfront
      | cons c front =>
        obtain ⟨hc, hfront⟩ := List.cons.inj hfront
        rw [List.cons_append, dropIgnoringCase?, if_pos hc.symm]
        exact ih.2 ⟨front, rfl, hfront⟩

theorem byteLength_congr (h : front.map Char.toUpper = name.map Char.toUpper) :
    byteLength front = byteLength name := by
  induction front generalizing name with
  | nil =>
    rw [List.map_eq_nil_iff.1 h.symm]
  | cons c front ih =>
    cases name with
    | nil => cases h
    | cons n name =>
      obtain ⟨hc, hfront⟩ := List.cons.inj h
      rw [byteLength_cons, byteLength_cons, ih hfront, utf8Size_eq_of_toUpper_eq hc]

/-- **A name is compared byte by byte** where its length is a boundary of the
rest. Where it is none the text begins with no such name, as changing the case
of a letter keeps its bytes as many. -/
theorem StandsAt.eatTextAt_eq (h : StandsAt whole offset text) :
    eatTextAt whole name offset
      = .ok ((dropIgnoringCase? name text).map (position whole)) := by
  rw [eatTextAt, h.cutFrom_eq]
  show ite _ _ _ = _
  split
  · rename_i hguard
    obtain ⟨after, hafter⟩ := Option.isSome_iff_exists.1 (Bool.and_eq_true_iff.1 hguard).2
    have hstands : StandsAt text (byteLength name) after := hafter
    obtain ⟨front, rfl, hlength⟩ := standsAt_iff.1 hstands
    rw [hstands.cutTo_eq, before_append]
    show Except.ok _ = _
    cases hdrop : dropIgnoringCase? name (front ++ after) with
    | some rest =>
      obtain ⟨front', heq, hcase⟩ := dropIgnoringCase?_eq_some_iff.1 hdrop
      have hrest : StandsAt (front ++ after) (byteLength name) rest :=
        standsAt_iff.2 ⟨front', heq, byteLength_congr hcase⟩
      obtain rfl : after = rest := Option.some.inj (hafter.symm.trans hrest)
      obtain rfl := List.append_cancel_right heq
      have hequal : equalIgnoringCase front name = true := beq_iff_eq.2 hcase
      rw [if_pos hequal, Option.map_some, h.position_append_eq, hlength]
    | none =>
      have hequal : ¬equalIgnoringCase front name = true := fun hequal => by
        rw [dropIgnoringCase?_eq_some_iff.2 ⟨front, rfl, beq_iff_eq.1 hequal⟩] at hdrop
        cases hdrop
      rw [if_neg hequal]
      rfl
  · rename_i hguard
    -- a name that comes next ends at a boundary
    cases hdrop : dropIgnoringCase? name text with
    | some rest =>
      obtain ⟨front, rfl, hcase⟩ := dropIgnoringCase?_eq_some_iff.1 hdrop
      refine absurd (Bool.and_eq_true_iff.2 ⟨decide_eq_true ?_, ?_⟩) hguard
      · rw [byteLength_append, byteLength_congr hcase]
        exact Nat.le_add_right _ _
      · exact Option.isSome_iff_exists.2
          ⟨rest, fromByte?_eq_some_iff.2 ⟨front, rfl, byteLength_congr hcase⟩⟩
    | none => rfl

/-! ## Runs of ASCII characters

Such a run has a byte for each character, so counting bytes is counting
characters, and its end is a boundary of the text. -/

/-- **A run of ASCII characters** has as many bytes as characters. -/
theorem IsAscii.runLength_eq {p : Char → Bool} (hp : IsAscii p) (limit : ℕ) (text : List Char) :
    runLength p limit text = ((text.take limit).takeWhile p).length := by
  have hone : ∀ c ∈ text.takeWhile p, c.toNat < 128 := fun c hc => hp c (List.mem_takeWhile_imp hc)
  rw [runLength, ← List.take_takeWhile, ← List.take_takeWhile, List.length_take, List.length_take,
    hp.takeWhile_bytes, length_bytes, byteLength_of_all hone]

/-- **Behind some ASCII characters** of a text is a boundary, which is as far as
they are many. -/
theorem cutTo_length {run : List Char} (hrun : run <+: text) (hone : ∀ c ∈ run, c.toNat < 128) :
    cutTo text run.length = .ok run := by
  obtain ⟨rest, rfl⟩ := hrun
  have hstands : StandsAt (run ++ rest) run.length rest :=
    standsAt_iff.2 ⟨run, rfl, byteLength_of_all hone⟩
  rw [hstands.cutTo_eq, before_append]

theorem StandsAt.position_drop (h : StandsAt whole offset text) {run : List Char}
    (hrun : run <+: text) (hone : ∀ c ∈ run, c.toNat < 128) :
    position whole (text.drop run.length) = offset + run.length := by
  obtain ⟨rest, rfl⟩ := hrun
  rw [List.drop_left, h.position_append_eq, byteLength_of_all hone]

end Worksheet.Text
