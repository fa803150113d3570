/-!
# Text

Everything the library reads is a list of characters, and every reader hands
back the characters it did not use. A position is never carried along: it is the
number of UTF-8 bytes between the start of the text and the characters that are
left, so it cannot fall inside a character.

The main statements are that length is additive (`byteLength_append`) and that a
rest at a byte offset is a suffix (`fromByte?_eq_some_iff`). Readers that do
keep an offset, and may cut a text where it cannot be cut, are those of
`Worksheet.Text.Cursor`.
-/

namespace Worksheet

-- Powers and hashes are the same ones in every module, whatever it imports.
attribute [scoped instance (high)] instPowNat instHashableChar
attribute [default_instance (high)] instPowNat

namespace Text

/-- How many bytes a text takes in UTF-8. -/
def byteLength : List Char → Nat
  | [] => 0
  | c :: rest => c.utf8Size + byteLength rest

@[simp] theorem byteLength_nil : byteLength [] = 0 := rfl

@[simp] theorem byteLength_cons (c : Char) (rest : List Char) :
    byteLength (c :: rest) = c.utf8Size + byteLength rest := rfl

@[simp] theorem byteLength_append (front rest : List Char) :
    byteLength (front ++ rest) = byteLength front + byteLength rest := by
  induction front with
  | nil => simp
  | cons c front ih => simp [ih, Nat.add_assoc]

theorem byteLength_eq_zero {text : List Char} : byteLength text = 0 ↔ text = [] := by
  cases text with
  | nil => exact iff_of_true rfl rfl
  | cons c rest =>
    have hpos := c.utf8Size_pos
    rw [byteLength_cons]
    exact iff_of_false (by omega) (List.cons_ne_nil c rest)

/-- Where a rest begins: the bytes of the whole text that come before it. -/
def position (whole rest : List Char) : Nat :=
  byteLength whole - byteLength rest

@[simp] theorem position_append (front rest : List Char) :
    position (front ++ rest) rest = byteLength front := by
  simp [position]

/-- The characters from a byte offset on; nothing when the offset falls inside a
character or past the end. -/
def fromByte? : Nat → List Char → Option (List Char)
  | 0, rest => some rest
  | _ + 1, [] => none
  | offset + 1, c :: rest =>
    if c.utf8Size ≤ offset + 1 then fromByte? (offset + 1 - c.utf8Size) rest else none
termination_by _ rest => rest.length

/-- An offset names a rest exactly when that many bytes stand before it. -/
theorem fromByte?_eq_some_iff {offset : Nat} {whole rest : List Char} :
    fromByte? offset whole = some rest ↔
      ∃ front, whole = front ++ rest ∧ byteLength front = offset := by
  fun_induction fromByte? offset whole with
  | case1 whole => simp [byteLength_eq_zero]
  | case2 offset =>
    refine ⟨nofun, ?_⟩
    rintro ⟨front, hfront, hlength⟩
    rw [(List.append_eq_nil_iff.1 hfront.symm).1] at hlength
    cases hlength
  | case3 offset c whole hle ih =>
    rw [ih]
    constructor
    · rintro ⟨front, rfl, hlength⟩
      refine ⟨c :: front, rfl, ?_⟩
      rw [byteLength_cons, hlength, Nat.add_sub_cancel' hle]
    · rintro ⟨front, hfront, hlength⟩
      cases front with
      | nil => cases hlength
      | cons d front =>
        obtain ⟨rfl, rfl⟩ := List.cons.inj hfront
        exact ⟨front, rfl, Nat.eq_sub_of_add_eq' hlength⟩
  | case4 offset c whole hgt =>
    -- the offset is inside the first character, which no front ends in
    refine ⟨nofun, ?_⟩
    rintro ⟨front, hfront, hlength⟩
    cases front with
    | nil => cases hlength
    | cons d front =>
      obtain ⟨rfl, rfl⟩ := List.cons.inj hfront
      exact absurd (Nat.le.intro hlength) hgt

/-- What follows a given beginning of a text. -/
def drop? : List Char → List Char → Option (List Char)
  | [], text => some text
  | _ :: _, [] => none
  | b :: beginning, c :: text => if b = c then drop? beginning text else none

/-- A beginning is dropped exactly when the text starts with it. -/
theorem drop?_eq_some_iff {beginning text rest : List Char} :
    drop? beginning text = some rest ↔ text = beginning ++ rest := by
  induction beginning generalizing text with
  | nil => simp [drop?]
  | cons b beginning ih =>
    cases text with
    | nil => simp [drop?]
    | cons c text =>
      simp only [drop?, List.cons_append, List.cons.injEq]
      split
      · rename_i h; simp [ih, h]
      · rename_i h; simp only [reduceCtorEq, false_iff, not_and]; exact fun hc => absurd hc.symm h

/-- Two texts are the same up to the case of ASCII letters. -/
def equalIgnoringCase (a b : List Char) : Bool :=
  a.map Char.toUpper == b.map Char.toUpper

/-- What follows a name at the start of a text, ASCII letters matching in either
case. -/
def dropIgnoringCase? : List Char → List Char → Option (List Char)
  | [], text => some text
  | _ :: _, [] => none
  | n :: name, c :: text =>
    if n.toUpper = c.toUpper then dropIgnoringCase? name text else none

/-- ASCII case folding keeps the number of bytes. -/
theorem utf8Size_eq_of_toUpper_eq {a b : Char} (h : a.toUpper = b.toUpper) :
    a.utf8Size = b.utf8Size := by
  have key : ∀ c : Char, c.utf8Size = c.toUpper.utf8Size := by
    intro c
    unfold Char.toUpper
    split
    · rename_i hc
      have h1 : c.val ≤ 0x7f := by
        have := hc.2
        simp only [UInt32.le_iff_toNat_le] at this ⊢
        simp at this ⊢; omega
      have h2 : (c.val + 4294967264) ≤ 0x7f := by
        have h97 := hc.1
        have h122 := hc.2
        simp only [UInt32.le_iff_toNat_le, ge_iff_le] at h97 h122 ⊢
        simp [UInt32.toNat_add] at h97 h122 ⊢
        omega
      simp [Char.utf8Size, h1, h2]
    · rfl
  rw [key a, key b, h]

/-- Dropping a name drops as many characters as it has. -/
theorem length_dropIgnoringCase? {name text rest : List Char}
    (h : dropIgnoringCase? name text = some rest) : text.length = name.length + rest.length := by
  induction name generalizing text with
  | nil => simp_all [dropIgnoringCase?]
  | cons n name ih =>
    cases text with
    | nil => simp [dropIgnoringCase?] at h
    | cons c text =>
      simp only [dropIgnoringCase?] at h
      split at h
      · have := ih h; simp; omega
      · simp at h

/-- The part of a text before a rest of it: what a reader that left the rest has
taken. -/
def before (whole rest : List Char) : List Char :=
  whole.take (whole.length - rest.length)

/-- What is before a rest is the text without it. -/
@[simp] theorem before_append (front rest : List Char) : before (front ++ rest) rest = front := by
  simp [before]

/-- A text brought to a width with characters put in front of it. -/
def padLeft (width : Nat) (pad : Char) (text : List Char) : List Char :=
  List.replicate (width - text.length) pad ++ text

/-- A natural number in decimal digits. -/
def ofNat (n : Nat) : List Char :=
  Nat.toDigits 10 n

/-- A natural number in decimal, filled up with zeros to a width. -/
def ofNatPadded (width n : Nat) : List Char :=
  padLeft width '0' (ofNat n)

/-- An integer in decimal, with a minus sign when it is negative. -/
def ofInt : Int → List Char
  | .ofNat n => ofNat n
  | .negSucc n => '-' :: ofNat (n + 1)

/-- The value of a run of decimal digits. -/
def digitsValue (digits : List Char) : Nat :=
  digits.foldl (fun value digit => value * 10 + (digit.toNat - '0'.toNat)) 0

/-- A text without its trailing characters of a class. -/
def dropTrailing (p : Char → Bool) (text : List Char) : List Char :=
  (text.reverse.dropWhile p).reverse

/-- **The run of characters of a class** at the start of a text, and the rest,
in one pass. -/
def takeRun (p : Char → Bool) (text : List Char) : List Char × List Char :=
  (text.takeWhile p, text.dropWhile p)

/-- A run and its rest make up the text. -/
@[simp] theorem takeRun_append (p : Char → Bool) (text : List Char) :
    (takeRun p text).1 ++ (takeRun p text).2 = text :=
  List.takeWhile_append_dropWhile

end Text

end Worksheet
