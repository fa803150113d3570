import Mathlib.Data.List.Basic
import Worksheet.Text.Basic

/-!
# Texts as bytes

A text in UTF-8. A byte below 128 is a whole character, so a run of ASCII
characters is the run of their bytes (`takeWhile_bytes`), and it ends between
two characters.
-/

namespace Worksheet.Text

/-- The bytes of a text in UTF-8. There are as many as `byteLength` counts. -/
def bytes (text : List Char) : List UInt8 :=
  text.flatMap String.utf8EncodeChar

@[simp] theorem bytes_cons (c : Char) (rest : List Char) :
    bytes (c :: rest) = String.utf8EncodeChar c ++ bytes rest :=
  List.flatMap_cons

@[simp] theorem bytes_append (front rest : List Char) :
    bytes (front ++ rest) = bytes front ++ bytes rest :=
  List.flatMap_append

@[simp] theorem length_bytes (text : List Char) : (bytes text).length = byteLength text := by
  induction text with
  | nil => rfl
  | cons c rest ih =>
    rw [bytes_cons, List.length_append, ih, String.length_utf8EncodeChar, byteLength_cons]

/-- An ASCII character is one byte. -/
theorem utf8EncodeChar_of_lt {c : Char} (h : c.toNat < 128) :
    String.utf8EncodeChar c = [UInt8.ofNat c.toNat] :=
  if_pos (Nat.le_of_lt_succ h)

/-- The other characters have no byte below 128. -/
theorem le_of_mem_utf8EncodeChar {c : Char} (h : 128 ≤ c.toNat) {byte : UInt8}
    (hbyte : byte ∈ String.utf8EncodeChar c) : 128 ≤ byte.toNat := by
  -- each byte says in its high bits that it is part of a longer character
  have hmark : ∀ {n low : ℕ}, 128 ≤ low → n + low < 256 → 128 ≤ (UInt8.ofNat (n + low)).toNat := by
    intro n low hlow hn
    rw [UInt8.toNat_ofNat', Nat.mod_eq_of_lt hn]
    omega
  have hlong : ¬c.val.toNat ≤ 127 := by
    rw [Nat.not_le]
    exact h
  simp only [String.utf8EncodeChar, if_neg hlong] at hbyte
  split at hbyte
  · simp only [List.mem_cons, List.not_mem_nil, or_false] at hbyte
    rcases hbyte with rfl | rfl <;> exact hmark (by decide) (by omega)
  · split at hbyte <;> simp only [List.mem_cons, List.not_mem_nil, or_false] at hbyte
    · rcases hbyte with rfl | rfl | rfl <;> exact hmark (by decide) (by omega)
    · rcases hbyte with rfl | rfl | rfl | rfl <;> exact hmark (by decide) (by omega)

theorem exists_bytes_cons (c : Char) (rest : List Char) :
    ∃ byte more, bytes (c :: rest) = byte :: more ∧ byte ∈ String.utf8EncodeChar c := by
  cases hbytes : String.utf8EncodeChar c with
  | nil =>
    have hlength := String.length_utf8EncodeChar c
    have hpos := c.utf8Size_pos
    rw [hbytes, List.length_nil] at hlength
    omega
  | cons byte more =>
    exact ⟨byte, more ++ bytes rest, by rw [bytes_cons, hbytes, List.cons_append],
      List.mem_cons_self⟩

theorem toNat_ofNat_byte (byte : UInt8) : (Char.ofNat byte.toNat).toNat = byte.toNat := by
  have hvalid : byte.toNat.isValidChar := .inl (Nat.lt_trans byte.toNat_lt (by decide))
  rw [Char.ofNat, dif_pos hvalid]
  rfl

/-! ## ASCII classes

A class of characters is asked of bytes by taking each byte for the character
of its number. That is sound for ASCII, as all other bytes belong to characters
from 128 on. -/

/-- A class of ASCII characters. -/
def IsAscii (p : Char → Bool) : Prop :=
  ∀ c, p c = true → c.toNat < 128

variable {p : Char → Bool}

/-- A class of ASCII characters, as bytes: every byte is taken for a character. -/
def onBytes (p : Char → Bool) (byte : UInt8) : Bool :=
  p (Char.ofNat byte.toNat)

theorem onBytes_of_lt {c : Char} (h : c.toNat < 128) :
    onBytes p (UInt8.ofNat c.toNat) = p c := by
  rw [onBytes, UInt8.toNat_ofNat', Nat.mod_eq_of_lt (by omega), Char.ofNat_toNat]

/-- A byte from 128 on is of no class of ASCII characters. -/
theorem IsAscii.onBytes_eq_false (hp : IsAscii p) {byte : UInt8} (h : 128 ≤ byte.toNat) :
    onBytes p byte = false := by
  refine Bool.eq_false_iff.2 fun hbyte => ?_
  have hlt := hp _ hbyte
  rw [toNat_ofNat_byte] at hlt
  exact absurd h (Nat.not_le.2 hlt)

/-- **A run of ASCII characters is a run of bytes.** No byte of another
character goes on with it. -/
theorem IsAscii.takeWhile_bytes (hp : IsAscii p) (text : List Char) :
    (bytes text).takeWhile (onBytes p) = bytes (text.takeWhile p) := by
  induction text with
  | nil => rfl
  | cons c rest ih =>
    by_cases h : c.toNat < 128
    · rw [bytes_cons, utf8EncodeChar_of_lt h, List.singleton_append, List.takeWhile_cons,
        onBytes_of_lt h, List.takeWhile_cons]
      split
      · rw [ih, bytes_cons, utf8EncodeChar_of_lt h]
        rfl
      · rfl
    · have hc : p c = false := Bool.eq_false_iff.2 fun hc => h (hp c hc)
      obtain ⟨byte, more, hbytes, hmem⟩ := exists_bytes_cons c rest
      have hbyte : onBytes p byte = false :=
        hp.onBytes_eq_false (le_of_mem_utf8EncodeChar (Nat.le_of_not_lt h) hmem)
      rw [hbytes, List.takeWhile_cons, hbyte, List.takeWhile_cons, hc]
      rfl

/-- ASCII characters take a byte each. -/
theorem byteLength_of_all {text : List Char} (h : ∀ c ∈ text, c.toNat < 128) :
    byteLength text = text.length := by
  induction text with
  | nil => rfl
  | cons c rest ih =>
    rw [List.forall_mem_cons] at h
    rw [byteLength_cons, ih h.2, ← String.length_utf8EncodeChar, utf8EncodeChar_of_lt h.1,
      List.length_singleton, List.length_cons, Nat.add_comm]

end Worksheet.Text
