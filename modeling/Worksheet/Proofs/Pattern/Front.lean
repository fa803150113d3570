import Worksheet.Proofs.Pattern.Derivation

/-!
# How an expression begins

The characters an expression can begin with, and whether it can be empty, are
computed from its terminals (`front`). For the rules of a grammar they are kept
in a table, and a table fits a grammar when the expression of each rule begins
with no other characters than its entry says (`Fits`). What an expression
derives then begins as computed (`Derives.allows`).

This is how two expressions are told apart: when they share no character to
begin with, nothing begins like both (`Front.Apart.not_begins`). A character
that is shared does no harm if each of the two takes it and nothing else
(`Front.Agree.rest_eq`).
-/

namespace Worksheet.Pattern

open Ebnf

/-- How something can begin: with which characters, and whether it may be
empty. -/
structure Front where
  /-- The characters it can begin with. -/
  heads : List Head
  /-- Whether it can be empty. -/
  nullable : Bool

namespace Front

def none : Front :=
  ⟨[], false⟩

/-- One thing and then another. Behind a character of the first the second may
follow, so none of them stands alone any longer. -/
def andThen (first second : Front) : Front where
  heads := first.heads.map (fun head => Head.opening head.char) ++
    if first.nullable then second.heads else []
  nullable := first.nullable && second.nullable

def or (first second : Front) : Front where
  heads := first.heads ++ second.heads
  nullable := first.nullable || second.nullable

end Front

mutual

/-- How an expression can begin, from how the rules begin. There is one clause
for each kind of `Expr`, and a repetition may be empty like an option. -/
def front (table : Nat → Front) : Expr (Symbol Terminal) → Front
  | .literal [] => ⟨[], true⟩
  | .literal [c] => ⟨Head.only c, false⟩
  | .literal (c :: _) => ⟨[Head.opening c], false⟩
  | .symbol (.terminal terminal) => ⟨terminal.heads, false⟩
  | .symbol (.rule index) => table index
  | .sequence parts => frontAll table parts
  | .choice parts => frontAny table parts
  | .optional part => { front table part with nullable := true }
  | .repetition part => ⟨(front table part).heads.map fun head => Head.opening head.char, true⟩

def frontAll (table : Nat → Front) : List (Expr (Symbol Terminal)) → Front
  | [] => ⟨[], true⟩
  | part :: parts => (front table part).andThen (frontAll table parts)

def frontAny (table : Nat → Front) : List (Expr (Symbol Terminal)) → Front
  | [] => .none
  | part :: parts => (front table part).or (frontAny table parts)

end

/-- **A table fits a grammar**: every rule begins as its entry says. The table
may say more, so it can be made for rules nested to some depth and checked
afterwards. -/
def Fits (grammar : Grammar Terminal) (table : Nat → Front) : Prop :=
  ∀ entry ∈ grammar.rules.zipIdx,
    (∀ head ∈ (front table entry.1.body).heads, head ∈ (table entry.2).heads) ∧
      ((front table entry.1.body).nullable = true → (table entry.2).nullable = true)

namespace Front

/-- **What is taken begins so**, or is nothing. -/
def Allows (f : Front) (input rest : List Char) : Prop :=
  Begins f.heads input rest ∨ f.nullable = true ∧ rest = input

variable {first second : Front} {input rest : List Char}

theorem Allows.orLeft (h : first.Allows input rest) : (first.or second).Allows input rest := by
  rcases h with h | ⟨hnullable, rfl⟩
  · exact .inl (h.mono (List.subset_append_left _ _))
  · exact .inr ⟨by rw [Front.or, hnullable, Bool.true_or], rfl⟩

theorem Allows.orRight (h : second.Allows input rest) : (first.or second).Allows input rest := by
  rcases h with h | ⟨hnullable, rfl⟩
  · exact .inl (h.mono (List.subset_append_right _ _))
  · exact .inr ⟨by rw [Front.or, hnullable, Bool.or_true], rfl⟩

end Front

/-- More may be taken behind the same characters, once they are no longer said
to stand alone. -/
theorem Begins.open {heads : List Head} {input mid rest : List Char} (h : Begins heads input mid)
    (hrest : rest <:+ mid) : Begins (heads.map fun head => Head.opening head.char) input rest := by
  obtain ⟨head, hmem, tail, rfl, hmid, -⟩ := h
  exact .opening (List.mem_map.2 ⟨head, hmem, rfl⟩) (hrest.trans hmid)

theorem Front.Allows.andThen {first second : Front} {input mid rest : List Char}
    (h : first.Allows input mid) (h' : second.Allows mid rest) (hsuffix : rest <:+ mid) :
    (first.andThen second).Allows input rest := by
  rcases h with h | ⟨hnullable, rfl⟩
  · exact .inl ((h.open hsuffix).mono (List.subset_append_left _ _))
  · rcases h' with h' | ⟨hnullable', rfl⟩
    · refine .inl (h'.mono ?_)
      rw [Front.andThen, hnullable, if_pos rfl]
      exact List.subset_append_right _ _
    · exact .inr ⟨by rw [Front.andThen, hnullable, hnullable']; rfl, rfl⟩

variable {grammar : Grammar Terminal} {table : Nat → Front}

theorem Front.Allows.any {part : Expr (Symbol Terminal)} {parts : List (Expr (Symbol Terminal))}
    {input rest : List Char} (hmem : part ∈ parts) (h : (front table part).Allows input rest) :
    (frontAny table parts).Allows input rest := by
  induction parts with
  | nil => cases hmem
  | cons first parts ih =>
    rw [frontAny]
    rcases List.mem_cons.1 hmem with rfl | hmem
    · exact h.orLeft
    · exact (ih hmem).orRight

/-- **What is derived begins as computed**, by induction on the derivation. For
the call of a rule the table is used, which fits the grammar. -/
theorem Derives.allows (htable : Fits grammar table) {e : Expr (Symbol Terminal)}
    {input rest : List Char} (h : Derives grammar e input rest) :
    (front table e).Allows input rest := by
  induction h with
  | @literal text rest =>
    match text with
    | [] => exact .inr ⟨by rw [front], rfl⟩
    | [c] =>
      rw [front]
      exact .inl (.only rest)
    | c :: d :: text =>
      rw [front]
      · exact .inl (.opening (List.mem_singleton_self _) (List.suffix_append (d :: text) rest))
      · exact fun h => List.cons_ne_nil _ _ h
  | terminal hscan =>
    rw [front]
    exact .inl (Terminal.begins_of_scan? hscan)
  | rule hrule hbody ih =>
    rw [front]
    -- the table holds for the rule's body, by `Fits`
    obtain ⟨hheads, hnullable⟩ := htable (_, _) (List.mk_mem_zipIdx_iff_getElem?.2 hrule)
    exact ih.imp (fun hbegins => hbegins.mono hheads) fun hempty => ⟨hnullable hempty.1, hempty.2⟩
  | nil => exact .inr ⟨by rw [front, frontAll], rfl⟩
  | cons hpart hparts ihpart ihparts =>
    rw [front] at ihparts ⊢
    rw [frontAll]
    exact ihpart.andThen ihparts hparts.suffix
  | choice hmem hpart ih =>
    rw [front]
    exact ih.any hmem
  | absent => exact .inr ⟨by rw [front], rfl⟩
  | present hpart ih =>
    rw [front]
    exact ih.imp id fun hempty => ⟨rfl, hempty.2⟩
  | stop => exact .inr ⟨by rw [front], rfl⟩
  | round hpart hmore ihpart ihmore =>
    rw [front] at ihmore ⊢
    -- a round that takes nothing leaves the question to the next one
    rcases ihpart with hbegins | ⟨-, rfl⟩
    · exact .inl (hbegins.open hmore.suffix)
    · exact ihmore

/-! ## Telling expressions apart

Both conditions are decidable on the computed fronts. `Agree` is the weaker
one: alternatives that take the same single character leave the same rest, so
it does not matter which of them is tried first. -/

namespace Front

/-- Two fronts have no character in common. -/
def Apart (first second : Front) : Prop :=
  ∀ head ∈ first.heads, ∀ head' ∈ second.heads, head.char ≠ head'.char

instance (first second : Front) : Decidable (first.Apart second) :=
  inferInstanceAs (Decidable (∀ head ∈ first.heads, ∀ head' ∈ second.heads,
    head.char ≠ head'.char))

/-- Two fronts have no character in common but those that each takes alone. -/
def Agree (first second : Front) : Prop :=
  ∀ head ∈ first.heads, ∀ head' ∈ second.heads, head.char = head'.char →
    head.alone = true ∧ head'.alone = true

instance (first second : Front) : Decidable (first.Agree second) :=
  inferInstanceAs (Decidable (∀ head ∈ first.heads, ∀ head' ∈ second.heads,
    head.char = head'.char → head.alone = true ∧ head'.alone = true))

variable {first second : Front} {input rest rest' : List Char}

theorem Allows.begins (h : first.Allows input rest) (hfirst : first.nullable = false) :
    Begins first.heads input rest := by
  rcases h with h | ⟨hnullable, -⟩
  · exact h
  · rw [hfirst] at hnullable
    cases hnullable

/-- **Two that begin differently do not begin the same text**, so of two
alternatives whose fronts are `Apart` only one can match. -/
theorem Apart.not_begins (h : first.Apart second) (hfirst : Begins first.heads input rest)
    (hsecond : Begins second.heads input rest') : False := by
  obtain ⟨head, hmem, tail, rfl, -⟩ := hfirst
  obtain ⟨head', hmem', tail', heq, -⟩ := hsecond
  exact h head hmem head' hmem' (List.cons.inj heq).1

/-- **Two that agree leave the same rest**: a character that both begin with is
all that either takes. -/
theorem Agree.rest_eq (h : first.Agree second) (hfirst : Begins first.heads input rest)
    (hsecond : Begins second.heads input rest') : rest = rest' := by
  obtain ⟨head, hmem, tail, rfl, -, hrest⟩ := hfirst
  obtain ⟨head', hmem', tail', heq, -, hrest'⟩ := hsecond
  obtain ⟨hchar, rfl⟩ := List.cons.inj heq
  obtain ⟨halone, halone'⟩ := h head hmem head' hmem' hchar
  rw [hrest halone, hrest' halone']

end Front

theorem Begins.length_lt {heads : List Head} {input rest : List Char}
    (h : Begins heads input rest) : rest.length < input.length := by
  obtain ⟨head, -, tail, rfl, hrest, -⟩ := h
  exact Nat.lt_succ_of_le hrest.length_le

end Worksheet.Pattern
