import Worksheet.Number.Binary
import Worksheet.Text.Basic

/-!
# Stored data

The form in which values, trees and formulas are kept outside: null, booleans,
whole numbers, doubles, texts, lists, and records of named fields. Each type of
the library that is kept has a function `toDatum` into this form and a function
`ofDatum?` back.

A choice between several cases is a record with the name of the case for its
only field, or the name alone for a case that holds nothing. A record of known
fields may also be given as the list of their contents. Fields that are not
known are left aside, and a missing one is null.
-/

namespace Worksheet

/-- **Stored data**, as it is handed to a writer of some format and taken from a
reader of it. What the format is does not matter to anything here. -/
inductive Datum where
  | null
  | boolean (value : Bool)
  | integer (value : Int)
  | float (value : Float)
  | text (value : List Char)
  | list (items : List Datum)
  | record (fields : List (String × Datum))
  deriving Inhabited

namespace Datum

/-- The field with a name in a record. -/
def field? (name : String) : List (String × Datum) → Option Datum
  | [] => none
  | (name', datum) :: fields => if name' = name then some datum else field? name fields

/-- A list has a size. -/
theorem sizeOf_list_pos [SizeOf α] (items : List α) : 0 < sizeOf items := by
  cases items <;> simp only [List.nil.sizeOf_spec, List.cons.sizeOf_spec] <;> omega

/-- What is in a record is smaller than the record. -/
theorem sizeOf_field?_lt {name : String} {fields : List (String × Datum)} {datum : Datum}
    (h : field? name fields = some datum) : sizeOf datum < sizeOf fields := by
  induction fields with
  | nil => simp [field?] at h
  | cons entry fields ih =>
    obtain ⟨name', datum'⟩ := entry
    simp only [field?] at h
    split at h
    · simp only [Option.some.injEq] at h
      subst h
      simp
      omega
    · have := ih h
      simp
      omega

/-- The field with a name in a record; null when there is none. -/
def field (name : String) (fields : List (String × Datum)) : Datum :=
  (field? name fields).getD .null

/-- The contents of the named fields of a record, or of the list that stands for
one. A field that is missing from a record is null. -/
def fields? (names : List String) : Datum → Option (List Datum)
  | record fields => some (names.map fun name => field name fields)
  | list items => if items.length = names.length then some items else none
  | _ => none

/-- The contents of named fields are smaller than what they are in. -/
theorem sizeOf_fields?_lt {names : List String} {datum item : Datum} {items : List Datum}
    (h : fields? names datum = some items) (hitem : item ∈ items) : sizeOf item < sizeOf datum := by
  unfold fields? at h
  split at h
  · rename_i fields
    simp only [Option.some.injEq] at h
    subst h
    obtain ⟨name, -, rfl⟩ := List.mem_map.1 hitem
    unfold field
    cases hfield : field? name fields with
    | none =>
      have := sizeOf_list_pos fields
      simp only [Option.getD_none, null.sizeOf_spec, record.sizeOf_spec]
      omega
    | some found =>
      have := sizeOf_field?_lt hfield
      simp
      omega
  · split at h
    · simp only [Option.some.injEq] at h
      subst h
      have := List.sizeOf_lt_of_mem hitem
      simp
      omega
    · simp at h
  · simp at h

/-- A case that holds nothing. -/
def name (case : String) : Datum :=
  text case.toList

/-- A case and what it holds. -/
def tagged (case : String) (content : Datum) : Datum :=
  record [(case, content)]

/-- The name of a case and what it holds; null when it holds nothing. -/
def case? : Datum → Option (String × Datum)
  | text name => some (String.ofList name, null)
  | record [entry] => some entry
  | _ => none

/-- What a case holds is smaller than the case. -/
theorem sizeOf_case?_lt {datum content : Datum} {case : String}
    (h : datum.case? = some (case, content)) : sizeOf content < sizeOf datum := by
  unfold case? at h
  split at h
  · rename_i name
    simp only [Option.some.injEq, Prod.mk.injEq] at h
    rw [← h.2]
    have := sizeOf_list_pos name
    simp only [null.sizeOf_spec, text.sizeOf_spec]
    omega
  · simp only [Option.some.injEq] at h
    subst h
    simp
    omega
  · simp at h

/-- Whether nothing is held. -/
def isNull : Datum → Bool
  | null => true
  | _ => false

/-- One of several cases that hold nothing. -/
def choice? (all : List α) (name : α → String) (datum : Datum) : Option α :=
  match datum.case? with
  | some (case, null) => all.find? fun a => name a = case
  | _ => none

/-- A text. -/
def text? : Datum → Option (List Char)
  | text value => some value
  | _ => none

/-- A single character. -/
def char? : Datum → Option Char
  | text [c] => some c
  | _ => none

/-- A boolean. -/
def boolean? : Datum → Option Bool
  | boolean value => some value
  | _ => none

/-- A double; a whole number is one as well. -/
def float? : Datum → Option Float
  | float value => some value
  | integer value => some (Number.ofInt value)
  | _ => none

/-- A whole number between two bounds. -/
def between? (low high : Int) : Datum → Option Int
  | integer value => if low ≤ value ∧ value ≤ high then some value else none
  | _ => none

/-- A natural number of at most so many bits. -/
def nat? (bits : Nat) (datum : Datum) : Option Nat :=
  (datum.between? 0 (2 ^ bits - 1)).map Int.toNat

/-- A natural number. -/
def ofNat (value : Nat) : Datum :=
  integer value

/-- Something, or null. -/
def ofOption (toDatum : α → Datum) : Option α → Datum
  | some a => toDatum a
  | none => null

/-- Something, or nothing for null. -/
def option? (ofDatum? : Datum → Option α) (datum : Datum) : Option (Option α) :=
  if datum.isNull then some none else (ofDatum? datum).map some

end Datum

end Worksheet
