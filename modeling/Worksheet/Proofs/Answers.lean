/-!
# Answers that are no errors

What may fail answers with an error or with a result. These lemmas take such an
answer apart when it is a result: one that went through other answers
(`exists_of_bind_eq_ok`, `exists_of_map_eq_ok`), and one of which it is only
known that it is there or what it is without its error.
-/

namespace Worksheet

variable {ε α β : Type} {answer : Except ε α}

/-- What a computation that succeeds goes through: each of its parts has
succeeded. -/
theorem exists_of_bind_eq_ok {next : α → Except ε β} {b : β} (h : answer >>= next = .ok b) :
    ∃ a, answer = .ok a ∧ next a = .ok b := by
  cases answer with
  | error e => cases h
  | ok a => exact ⟨a, rfl, h⟩

theorem exists_of_map_eq_ok {change : α → β} {b : β} (h : answer.map change = .ok b) :
    ∃ a, answer = .ok a ∧ change a = b := by
  cases answer with
  | error e => cases h
  | ok a => exact ⟨a, rfl, Except.ok.inj h⟩

theorem eq_error_of_map {change : α → β} {e : ε} (h : answer.map change = .error e) :
    answer = .error e := by
  cases answer with
  | error e' => exact congrArg Except.error (Except.error.inj h)
  | ok a => cases h

theorem exists_of_isOk (h : answer.isOk = true) : ∃ a, answer = .ok a := by
  cases answer with
  | error e => cases h
  | ok a => exact ⟨a, rfl⟩

/-- What is left of an answer when its error is dropped. -/
theorem eq_ok_of_toOption {a : α} (h : answer.toOption = some a) : answer = .ok a := by
  cases answer with
  | error e => cases h
  | ok b => rw [Option.some.inj h]

theorem eq_ok_get (h : answer.toOption.isSome = true) :
    answer = .ok (answer.toOption.get h) :=
  eq_ok_of_toOption (Option.some_get h).symm

end Worksheet
