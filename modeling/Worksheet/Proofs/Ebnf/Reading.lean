import Mathlib.Data.List.Chain
import Worksheet.Ebnf.Grammar
import Worksheet.Proofs.Answers
import Worksheet.Proofs.Ebnf.Layout

/-!
# Grammar expressions are read as they are written

An expression is written in three levels (`Writes`): alternatives are sequences
with bars between them, sequences are factors with commas between them, and
factors are literals, names, and alternatives in brackets. A single part is
written as it is, so that no list of one part comes of it, and parentheses leave
nothing behind.

What is read is what is written (`sound_alternatives`), and what is written is
read, before anything that cannot go on with it (`isRead_of_writes`).
-/

namespace Worksheet.Ebnf

/-- The levels of the notation. An expression of each is made of those of the
level before. -/
inductive Level where
  | factor
  | sequence
  | alternatives

/-- **How expressions are written.** A single part is itself on the level above,
without a node. -/
inductive Writes : Level → List Lexeme → Expr (List Char) → Prop
  | literal (text : List Char) : Writes .factor [.literal text] (.literal text)
  | name (text : List Char) : Writes .factor [.name text] (.symbol text)
  | optional {tokens : List Lexeme} {part : Expr (List Char)}
      (hpart : Writes .alternatives tokens part) :
      Writes .factor (.mark '[' :: tokens ++ [.mark ']']) (.optional part)
  | repetition {tokens : List Lexeme} {part : Expr (List Char)}
      (hpart : Writes .alternatives tokens part) :
      Writes .factor (.mark '{' :: tokens ++ [.mark '\x7d']) (.repetition part)
  | group {tokens : List Lexeme} {part : Expr (List Char)}
      (hpart : Writes .alternatives tokens part) :
      Writes .factor (.mark '(' :: tokens ++ [.mark ')']) part
  /-- One factor is a sequence. -/
  | single {tokens : List Lexeme} {part : Expr (List Char)} (hpart : Writes .factor tokens part) :
      Writes .sequence tokens part
  | sequence {parts : List (List Lexeme × Expr (List Char))} (hseveral : 2 ≤ parts.length)
      (hparts : ∀ part ∈ parts, Writes .factor part.1 part.2) :
      Writes .sequence ([.mark ','].intercalate (parts.map Prod.fst))
        (.sequence (parts.map Prod.snd))
  /-- One sequence is all the alternatives. -/
  | only {tokens : List Lexeme} {part : Expr (List Char)} (hpart : Writes .sequence tokens part) :
      Writes .alternatives tokens part
  | choice {parts : List (List Lexeme × Expr (List Char))} (hseveral : 2 ≤ parts.length)
      (hparts : ∀ part ∈ parts, Writes .sequence part.1 part.2) :
      Writes .alternatives ([.mark '|'].intercalate (parts.map Prod.fst))
        (.choice (parts.map Prod.snd))

/-- **How rules are written**, one after the other. -/
inductive WritesRules : List Lexeme → List (Rule (List Char)) → Prop
  | nil : WritesRules [] []
  | cons (name : List Char) {tokens rest : List Lexeme} {body : Expr (List Char)}
      {rules : List (Rule (List Char))} (hbody : Writes .alternatives tokens body)
      (hrest : WritesRules rest rules) :
      WritesRules (.name name :: .mark '=' :: (tokens ++ .mark ';' :: rest)) (⟨name, body⟩ :: rules)

/-! ## Parts with marks between them -/

def behind (mark : Char) (parts : List (List Lexeme × Expr (List Char))) : List Lexeme :=
  parts.flatMap fun part => .mark mark :: part.1

/-- Parts with marks between them are the first and the others `behind` their
marks, which is how they are read. -/
theorem intercalate_eq (mark : Char) (first : List Lexeme × Expr (List Char))
    (more : List (List Lexeme × Expr (List Char))) :
    [.mark mark].intercalate ((first :: more).map Prod.fst) = first.1 ++ behind mark more := by
  induction more generalizing first with
  | nil => rw [List.map_singleton, List.intercalate_singleton, behind, List.flatMap_nil,
      List.append_nil]
  | cons next more ih =>
    rw [List.map_cons, List.map_cons, List.intercalate_cons_cons, ← List.map_cons, ih,
      List.append_assoc]
    rfl

/-! ## What the readers answer

The readers carry a proof that they leave less than they were given. It is
needed for their recursion and nowhere else, so it is taken off here (`plain`),
and the equations of the readers are stated without it. -/

variable {finish : ℕ} {input rest : List Placed} {part : Expr (List Char)}

/-- **What is read and what is left**, without the proof that it is less, which
the readers need to end. -/
def plain {α : Type} {fits : α × List Placed → Prop}
    (answer : Except GrammarError { result : α × List Placed // fits result }) :
    Except GrammarError (α × List Placed) :=
  answer.map Subtype.val

theorem plain_readMark_eq_ok_iff {mark : Char} {result : Unit × List Placed} :
    plain (readMark finish mark input) = .ok result
      ↔ ∃ position, input = ⟨.mark mark, position⟩ :: result.2 := by
  cases input with
  | nil => simp [readMark, plain, Except.map]
  | cons placed others =>
    obtain ⟨lexeme, position⟩ := placed
    by_cases hmark : lexeme = .mark mark
    · subst hmark
      simp [readMark, plain, Except.map, Prod.ext_iff]
    · simp [readMark, plain, Except.map, hmark]

theorem plain_readName_eq_ok_iff {result : List Char × List Placed} :
    plain (readName finish input) = .ok result
      ↔ ∃ position, input = ⟨.name result.1, position⟩ :: result.2 := by
  constructor
  · intro h
    unfold readName at h
    split at h
    · cases h
      exact ⟨_, rfl⟩
    · cases h
  · rintro ⟨position, rfl⟩
    rfl

theorem plain_readEnclosed (wrap : Expr (List Char) → Expr (List Char)) (close : Char)
    (opening : Placed) (input : List Placed) :
    plain (readEnclosed finish wrap close opening input)
      = (plain (readAlternatives finish input)).bind fun inner =>
        (plain (readMark finish close inner.2)).map fun after => (wrap inner.1, after.2) := by
  rw [readEnclosed]
  cases readAlternatives finish input with
  | error => rfl
  | ok inner =>
    obtain ⟨⟨inner, rest⟩, h⟩ := inner
    simp only [plain, Except.map, Except.bind]
    cases readMark finish close rest <;> rfl

theorem plain_readSequence (input : List Placed) :
    plain (readSequence finish input)
      = (plain (readFactor finish input)).bind fun first =>
        (plain (readMoreFactors finish first.2)).map fun more =>
          (collapse .sequence (first.1 :: more.1), more.2) := by
  rw [readSequence]
  cases readFactor finish input with
  | error => rfl
  | ok first =>
    obtain ⟨⟨first, rest⟩, h⟩ := first
    simp only [plain, Except.map, Except.bind]
    cases readMoreFactors finish rest <;> rfl

theorem plain_readAlternatives (input : List Placed) :
    plain (readAlternatives finish input)
      = (plain (readSequence finish input)).bind fun first =>
        (plain (readMoreSequences finish first.2)).map fun more =>
          (collapse .choice (first.1 :: more.1), more.2) := by
  rw [readAlternatives]
  cases readSequence finish input with
  | error => rfl
  | ok first =>
    obtain ⟨⟨first, rest⟩, h⟩ := first
    simp only [plain, Except.map, Except.bind]
    cases readMoreSequences finish rest <;> rfl

theorem plain_readMoreFactors_cons (placed : Placed) (input : List Placed) :
    plain (readMoreFactors finish (placed :: input))
      = if placed.lexeme = .mark ',' then
          (plain (readFactor finish input)).bind fun next =>
            (plain (readMoreFactors finish next.2)).map fun more => (next.1 :: more.1, more.2)
        else if placed.lexeme = .openComment then .error (.badSyntax placed.position .openComment)
        else .ok ([], placed :: input) := by
  rw [readMoreFactors]
  split
  · cases readFactor finish input with
    | error => rfl
    | ok next =>
      obtain ⟨⟨next, rest⟩, h⟩ := next
      simp only [plain, Except.map, Except.bind]
      cases readMoreFactors finish rest <;> rfl
  · split <;> rfl

theorem plain_readMoreSequences_cons (placed : Placed) (input : List Placed) :
    plain (readMoreSequences finish (placed :: input))
      = if placed.lexeme = .mark '|' then
          (plain (readSequence finish input)).bind fun next =>
            (plain (readMoreSequences finish next.2)).map fun more => (next.1 :: more.1, more.2)
        else .ok ([], placed :: input) := by
  rw [readMoreSequences]
  split
  · cases readSequence finish input with
    | error => rfl
    | ok next =>
      obtain ⟨⟨next, rest⟩, h⟩ := next
      simp only [plain, Except.map, Except.bind]
      cases readMoreSequences finish rest <;> rfl
  · rfl

theorem plain_readMore_nil :
    plain (readMoreFactors finish []) = .ok ([], [])
      ∧ plain (readMoreSequences finish []) = .ok ([], []) := by
  rw [readMoreFactors, readMoreSequences]
  exact ⟨rfl, rfl⟩

theorem fits_of_plain {α : Type} {fits : α × List Placed → Prop}
    {answer : Except GrammarError { result : α × List Placed // fits result }}
    {result : α × List Placed} (h : plain answer = .ok result) : fits result := by
  obtain ⟨found, -, rfl⟩ := exists_of_map_eq_ok h
  exact found.2

/-- The brackets of the notation, with what is made of what they enclose. -/
def brackets : List (Char × (Expr (List Char) → Expr (List Char)) × Char) :=
  [('[', .optional, ']'), ('{', .repetition, '\x7d'), ('(', id, ')')]

theorem plain_readFactor_of_mem_brackets {opening close : Char}
    {wrap : Expr (List Char) → Expr (List Char)} (h : (opening, wrap, close) ∈ brackets)
    (position : ℕ) (input : List Placed) :
    plain (readFactor finish (⟨.mark opening, position⟩ :: input))
      = plain (readEnclosed finish wrap close ⟨.mark opening, position⟩ input) := by
  simp only [brackets, List.mem_cons, Prod.mk.injEq, List.not_mem_nil, or_false] at h
  rcases h with ⟨rfl, rfl, rfl⟩ | ⟨rfl, rfl, rfl⟩ | ⟨rfl, rfl, rfl⟩
  all_goals
    rw [readFactor]
    rfl

/-- **What a factor is read from**: a literal, a name, or a bracket. -/
theorem exists_of_readFactor {result : Expr (List Char) × List Placed}
    (h : plain (readFactor finish input) = .ok result) :
    (∃ text position, input = ⟨.literal text, position⟩ :: result.2 ∧ result.1 = .literal text)
      ∨ (∃ text position, input = ⟨.name text, position⟩ :: result.2 ∧ result.1 = .symbol text)
      ∨ ∃ opening wrap close position after, (opening, wrap, close) ∈ brackets
        ∧ input = ⟨.mark opening, position⟩ :: after
        ∧ plain (readEnclosed finish wrap close ⟨.mark opening, position⟩ after)
          = .ok result := by
  cases input with
  | nil =>
    rw [readFactor] at h
    cases h
  | cons placed input =>
    obtain ⟨lexeme, position⟩ := placed
    rw [readFactor] at h
    dsimp only at h
    split at h
    · cases h
      exact .inl ⟨_, _, rfl, rfl⟩
    · cases h
      exact .inr (.inl ⟨_, _, rfl, rfl⟩)
    · cases h
    · cases h
    · exact .inr (.inr ⟨_, _, _, _, _, .head _, rfl, h⟩)
    · exact .inr (.inr ⟨_, _, _, _, _, .tail _ (.head _), rfl, h⟩)
    · exact .inr (.inr ⟨_, _, _, _, _, .tail _ (.tail _ (.head _)), rfl, h⟩)
    · cases h

/-- Reading an expression of a level. -/
def readLevel (finish : ℕ) : Level → (input : List Placed) → Reading (Expr (List Char)) input
  | .factor => readFactor finish
  | .sequence => readSequence finish
  | .alternatives => readAlternatives finish

/-! ## One level on another

Both levels of several parts are read by the same three steps: a first part,
further parts each behind a mark, and one node for all of them if there are
several. `Stacked` states these of a level and the level below; soundness and
completeness are proved for it and used for both. -/

/-- What an expression of a level goes on with. A comment without an end is
found where a comma could be. -/
def Level.continues : Level → List Lexeme
  | .factor => []
  | .sequence => [.mark ',', .openComment]
  | .alternatives => [.mark ',', .openComment, .mark '|']

/-- **Expressions of one level make up those of another**: one part, or several
with a mark between them. `readMore` reads the parts behind their marks.
Sequences and alternatives are the two instances, so that each argument below is
made once. -/
structure Stacked (finish : ℕ) (mark : Char) (lower upper : Level)
    (wrap : List (Expr (List Char)) → Expr (List Char))
    (readMore : List Placed → Except GrammarError (List (Expr (List Char)) × List Placed)) :
    Prop where
  one : ∀ {tokens part}, Writes lower tokens part → Writes upper tokens part
  several : ∀ {pieces : List (List Lexeme × Expr (List Char))}, 2 ≤ pieces.length →
    (∀ piece ∈ pieces, Writes lower piece.1 piece.2) →
      Writes upper ([.mark mark].intercalate (pieces.map Prod.fst)) (wrap (pieces.map Prod.snd))
  /-- The first part is read, and then the others. -/
  whole : ∀ input, plain (readLevel finish upper input)
    = (plain (readLevel finish lower input)).bind fun first =>
      (readMore first.2).map fun more => (collapse wrap (first.1 :: more.1), more.2)
  nil : readMore [] = .ok ([], [])
  /-- A part behind its mark is read. -/
  cons : ∀ placed input, placed.lexeme = .mark mark → readMore (placed :: input)
    = (plain (readLevel finish lower input)).bind fun next =>
      (readMore next.2).map fun more => (next.1 :: more.1, more.2)
  /-- Nothing is read before anything else. -/
  other : ∀ placed input result, placed.lexeme ≠ .mark mark →
    readMore (placed :: input) = .ok result → result = ([], placed :: input)
  ends : ∀ placed input, placed.lexeme ∉ upper.continues →
    readMore (placed :: input) = .ok ([], placed :: input)
  continues : ∀ lexeme ∈ lower.continues, lexeme ∈ upper.continues
  notMem : .mark mark ∉ lower.continues

/-- Factors make up sequences, with commas between them. -/
theorem stacked_sequence (finish : ℕ) : Stacked finish ',' .factor .sequence .sequence
    fun input => plain (readMoreFactors finish input) where
  one := .single
  several := .sequence
  whole := plain_readSequence
  nil := plain_readMore_nil.1
  cons placed input hcomma := by rw [plain_readMoreFactors_cons, if_pos hcomma]; rfl
  other placed input result hother hread := by
    rw [plain_readMoreFactors_cons, if_neg hother] at hread
    split at hread
    · cases hread
    · exact (Except.ok.inj hread).symm
  ends placed input hends := by
    simp only [Level.continues, List.mem_cons, List.not_mem_nil, or_false, not_or] at hends
    rw [plain_readMoreFactors_cons, if_neg hends.1, if_neg hends.2]
  continues := by decide
  notMem := by decide

/-- Sequences make up alternatives, with bars between them. -/
theorem stacked_alternatives (finish : ℕ) : Stacked finish '|' .sequence .alternatives .choice
    fun input => plain (readMoreSequences finish input) where
  one := .only
  several := .choice
  whole := plain_readAlternatives
  nil := plain_readMore_nil.2
  cons placed input hbar := by rw [plain_readMoreSequences_cons, if_pos hbar]; rfl
  other placed input result hother hread := by
    rw [plain_readMoreSequences_cons, if_neg hother] at hread
    exact (Except.ok.inj hread).symm
  ends placed input hends := by
    simp only [Level.continues, List.mem_cons, List.not_mem_nil, or_false, not_or] at hends
    rw [plain_readMoreSequences_cons, if_neg hends.2.2]
  continues := by decide
  notMem := by decide

/-! ## What is read is written

Soundness, by induction on the number of lexemes. `Takes` says it of one
expression and `TakesMore` of those behind the marks; a factor in brackets has
fewer lexemes than the brackets with it. -/

/-- **An expression is taken** from the front of some lexemes. -/
def Takes (level : Level) (input rest : List Placed) (part : Expr (List Char)) : Prop :=
  ∃ used, input = used ++ rest ∧ Writes level (used.map Placed.lexeme) part

/-- **Expressions are taken**, each behind a mark. -/
def TakesMore (mark : Char) (level : Level) (input rest : List Placed)
    (parts : List (Expr (List Char))) : Prop :=
  ∃ used pieces, input = used ++ rest ∧ used.map Placed.lexeme = behind mark pieces
    ∧ parts = pieces.map Prod.snd ∧ ∀ piece ∈ pieces, Writes level piece.1 piece.2

theorem TakesMore.nil (mark : Char) (level : Level) (rest : List Placed) :
    TakesMore mark level rest rest [] :=
  ⟨[], [], rfl, rfl, rfl, fun _ h => absurd h List.not_mem_nil⟩

theorem TakesMore.cons {mark : Char} {level : Level} {mid : List Placed}
    {parts : List (Expr (List Char))} (position : ℕ) (hfirst : Takes level input mid part)
    (hmore : TakesMore mark level mid rest parts) :
    TakesMore mark level (⟨.mark mark, position⟩ :: input) rest (part :: parts) := by
  obtain ⟨used, rfl, hused⟩ := hfirst
  obtain ⟨others, pieces, rfl, hothers, rfl, hpieces⟩ := hmore
  refine ⟨⟨.mark mark, position⟩ :: (used ++ others), (used.map Placed.lexeme, part) :: pieces,
    by rw [List.cons_append, List.append_assoc], ?_, rfl,
    List.forall_mem_cons.2 ⟨hused, hpieces⟩⟩
  rw [List.map_cons, List.map_append, hothers]
  rfl

/-- **What is read is written**, for all lexemes up to a length. -/
def Sound (finish : ℕ) (level : Level) (length : ℕ) : Prop :=
  ∀ input, input.length ≤ length → ∀ result, plain (readLevel finish level input) = .ok result →
    Takes level input result.2 result.1

section

variable {mark : Char} {lower upper : Level} {wrap : List (Expr (List Char)) → Expr (List Char)}
  {readMore : List Placed → Except GrammarError (List (Expr (List Char)) × List Placed)}

theorem length_of_readLevel {level : Level} {result : Expr (List Char) × List Placed}
    (h : plain (readLevel finish level input) = .ok result) :
    result.2.length < input.length :=
  fits_of_plain h

/-- Parts behind marks are written where they are read, by induction on the
lexemes that are left. -/
theorem Stacked.takesMore (h : Stacked finish mark lower upper wrap readMore) {length : ℕ}
    (hlower : Sound finish lower length) (input : List Placed) (hlength : input.length ≤ length)
    {result : List (Expr (List Char)) × List Placed} (hread : readMore input = .ok result) :
    TakesMore mark lower input result.2 result.1 := by
  induction hsize : input.length using Nat.strongRecOn generalizing input result with
  | ind size ih =>
    cases input with
    | nil =>
      rw [h.nil] at hread
      cases hread
      exact .nil _ _ _
    | cons placed input =>
      obtain ⟨lexeme, position⟩ := placed
      by_cases hmark : lexeme = .mark mark
      · subst hmark
        rw [h.cons _ _ rfl] at hread
        obtain ⟨next, hnext, hread⟩ := exists_of_bind_eq_ok hread
        obtain ⟨more, hmore, rfl⟩ := exists_of_map_eq_ok hread
        rw [List.length_cons] at hlength hsize
        have hshorter := length_of_readLevel hnext
        exact .cons position (hlower input (by omega) next hnext)
          (ih next.2.length (by omega) next.2 (by omega) hmore rfl)
      · obtain rfl := h.other _ _ _ hmark hread
        exact .nil _ _ _

/-- **One part is as it is and several are together**, so a level is sound when
the level below is. -/
theorem Stacked.sound (h : Stacked finish mark lower upper wrap readMore) {length : ℕ}
    (hlower : Sound finish lower length) : Sound finish upper length := by
  intro input hlength result hread
  rw [h.whole] at hread
  obtain ⟨first, hfirst, hread⟩ := exists_of_bind_eq_ok hread
  obtain ⟨more, hmore, rfl⟩ := exists_of_map_eq_ok hread
  have hshorter := length_of_readLevel hfirst
  obtain ⟨used, rfl, hused⟩ := hlower input hlength first hfirst
  obtain ⟨others, pieces, hrest, hothers, hparts, hpieces⟩ :=
    h.takesMore hlower first.2 (by omega) hmore
  refine ⟨used ++ others, by rw [List.append_assoc, ← hrest], ?_⟩
  rw [List.map_append, hothers, hparts]
  cases pieces with
  | nil =>
    rw [behind, List.flatMap_nil, List.append_nil]
    exact h.one hused
  | cons piece pieces =>
    rw [← intercalate_eq mark (used.map Placed.lexeme, first.1)]
    exact h.several (Nat.le_add_left 2 _) (List.forall_mem_cons.2 ⟨hused, hpieces⟩)

end

theorem Writes.enclosed {opening close : Char} {wrap : Expr (List Char) → Expr (List Char)}
    (h : (opening, wrap, close) ∈ brackets) {tokens : List Lexeme}
    (hpart : Writes .alternatives tokens part) :
    Writes .factor (.mark opening :: tokens ++ [.mark close]) (wrap part) := by
  simp only [brackets, List.mem_cons, Prod.mk.injEq, List.not_mem_nil, or_false] at h
  rcases h with ⟨rfl, rfl, rfl⟩ | ⟨rfl, rfl, rfl⟩ | ⟨rfl, rfl, rfl⟩
  · exact .optional hpart
  · exact .repetition hpart
  · exact .group hpart

/-- Factors are written where they are read, if the alternatives in their
brackets are. -/
theorem sound_factor {length : ℕ}
    (h : ∀ shorter < length, Sound finish .alternatives shorter) :
    Sound finish .factor length := by
  rintro input hlength ⟨part, rest⟩ hread
  rcases exists_of_readFactor hread with ⟨text, position, rfl, rfl⟩ | ⟨text, position, rfl, rfl⟩
    | ⟨opening, wrap, close, position, after, hbracket, rfl, hinner⟩
  · exact ⟨[_], rfl, .literal text⟩
  · exact ⟨[_], rfl, .name text⟩
  · rw [plain_readEnclosed] at hinner
    obtain ⟨⟨inner, mid⟩, halternatives, hinner⟩ := exists_of_bind_eq_ok hinner
    obtain ⟨⟨u, final⟩, hmark, hresult⟩ := exists_of_map_eq_ok hinner
    obtain ⟨rfl, rfl⟩ := Prod.mk.inj hresult
    obtain ⟨closing, rfl⟩ := plain_readMark_eq_ok_iff.1 hmark
    obtain ⟨used, rfl, hused⟩ := h _ hlength after (Nat.le_refl _) _ halternatives
    refine ⟨⟨.mark opening, position⟩ :: (used ++ [⟨.mark close, closing⟩]), by simp, ?_⟩
    rw [List.map_cons, List.map_append]
    exact .enclosed hbracket hused

/-- **What is read is written**, by induction on the number of lexemes. -/
theorem sound_alternatives (finish length : ℕ) : Sound finish .alternatives length := by
  induction length using Nat.strongRecOn with
  | ind length ih =>
    exact (stacked_alternatives finish).sound ((stacked_sequence finish).sound (sound_factor ih))

/-! ## What is written is read

Completeness, by induction on how an expression is written. An expression is
read up to what follows it, so it has to be followed by nothing that it could
go on with (`Follows`); behind each part this is the mark, and behind the last
one what follows the whole. -/

/-- **What may follow an expression of a level**: nothing that it goes on with. -/
def Follows (level : Level) (rest : List Placed) : Prop :=
  ∀ placed ∈ rest.head?, placed.lexeme ∉ level.continues

/-- **Tokens are read as an expression**, wherever they are placed and whatever
follows. -/
def IsRead (finish : ℕ) (level : Level) (tokens : List Lexeme) (part : Expr (List Char)) : Prop :=
  ∀ input rest, input.map Placed.lexeme = tokens → Follows level rest →
    plain (readLevel finish level (input ++ rest)) = .ok (part, rest)

theorem follows_mark {mark : Char} (h : mark ∈ [']', '\x7d', ')', ';']) (position : ℕ)
    (rest : List Placed) : Follows .alternatives (⟨.mark mark, position⟩ :: rest) := by
  intro placed hplaced
  obtain rfl := Option.some.inj hplaced
  simp only [List.mem_cons, List.not_mem_nil, or_false] at h
  rcases h with rfl | rfl | rfl | rfl <;> simp [Level.continues]

/-- A bracket is read with what it encloses. -/
theorem isRead_enclosed {opening close : Char} {wrap : Expr (List Char) → Expr (List Char)}
    (h : (opening, wrap, close) ∈ brackets) {tokens : List Lexeme}
    (hpart : IsRead finish .alternatives tokens part) :
    IsRead finish .factor (.mark opening :: tokens ++ [.mark close]) (wrap part) := by
  intro input rest hinput _
  have hclose : close ∈ [']', '\x7d', ')', ';'] := by
    simp only [brackets, List.mem_cons, Prod.mk.injEq, List.not_mem_nil, or_false] at h
    rcases h with ⟨-, -, rfl⟩ | ⟨-, -, rfl⟩ | ⟨-, -, rfl⟩ <;> decide
  obtain ⟨front, back, rfl, hfront, hback⟩ := List.map_eq_append_iff.1 hinput
  obtain ⟨⟨lexeme, position⟩, inner, rfl, rfl, rfl⟩ := List.map_eq_cons_iff.1 hfront
  obtain ⟨⟨lexeme, closing⟩, others, rfl, rfl, hnil⟩ := List.map_eq_cons_iff.1 hback
  obtain rfl := List.map_eq_nil_iff.1 hnil
  have hinner := hpart inner (⟨.mark close, closing⟩ :: rest) rfl (follows_mark hclose closing rest)
  have hmark : plain (readMark finish close (⟨.mark close, closing⟩ :: rest)) = .ok ((), rest) :=
    plain_readMark_eq_ok_iff.2 ⟨closing, rfl⟩
  have hsplit : ⟨.mark opening, position⟩ :: inner ++ [⟨.mark close, closing⟩] ++ rest
      = ⟨.mark opening, position⟩ :: (inner ++ ⟨.mark close, closing⟩ :: rest) := by simp
  rw [hsplit, readLevel, plain_readFactor_of_mem_brackets h, plain_readEnclosed]
  show (plain (readLevel finish .alternatives _)).bind _ = _
  rw [hinner]
  show (plain (readMark finish close _)).map _ = _
  rw [hmark]
  rfl

section

variable {mark : Char} {lower upper : Level} {wrap : List (Expr (List Char)) → Expr (List Char)}
  {readMore : List Placed → Except GrammarError (List (Expr (List Char)) × List Placed)}
  {pieces : List (List Lexeme × Expr (List Char))}

theorem Stacked.follows (h : Stacked finish mark lower upper wrap readMore)
    (hinput : input.map Placed.lexeme = behind mark pieces) (hrest : Follows upper rest) :
    Follows lower (input ++ rest) := by
  intro placed hplaced
  cases pieces with
  | nil =>
    obtain rfl := List.map_eq_nil_iff.1 hinput
    exact fun hmem => hrest placed hplaced (h.continues _ hmem)
  | cons piece pieces =>
    obtain ⟨first, others, rfl, hmark, -⟩ := List.map_eq_cons_iff.1 hinput
    obtain rfl := Option.some.inj hplaced
    exact hmark ▸ h.notMem

/-- **Parts behind marks are read** up to what ends the whole, by induction on
the parts. -/
theorem Stacked.readMore_behind (h : Stacked finish mark lower upper wrap readMore)
    (hpieces : ∀ piece ∈ pieces, IsRead finish lower piece.1 piece.2)
    (hinput : input.map Placed.lexeme = behind mark pieces) (hrest : Follows upper rest) :
    readMore (input ++ rest) = .ok (pieces.map Prod.snd, rest) := by
  induction pieces generalizing input with
  | nil =>
    obtain rfl := List.map_eq_nil_iff.1 hinput
    rw [List.nil_append]
    cases rest with
    | nil => exact h.nil
    | cons placed rest => exact h.ends placed rest (hrest placed rfl)
  | cons piece pieces ih =>
    obtain ⟨hpiece, hpieces⟩ := List.forall_mem_cons.1 hpieces
    obtain ⟨first, behindFirst, rfl, hmark, hbehind⟩ := List.map_eq_cons_iff.1 hinput
    obtain ⟨used, others, rfl, hused, hothers⟩ := List.map_eq_append_iff.1 hbehind
    rw [List.cons_append, h.cons _ _ hmark, List.append_assoc,
      hpiece used _ hused (h.follows hothers hrest)]
    show (readMore (others ++ rest)).map _ = _
    rw [ih hpieces hothers]
    rfl

/-- **A whole is read when its parts are**: as the only part it is, or as
several. -/
theorem Stacked.isRead (h : Stacked finish mark lower upper wrap readMore)
    (first : List Lexeme × Expr (List Char)) (more : List (List Lexeme × Expr (List Char)))
    (hparts : ∀ piece ∈ first :: more, IsRead finish lower piece.1 piece.2) :
    IsRead finish upper (first.1 ++ behind mark more)
      (collapse wrap (first.2 :: more.map Prod.snd)) := by
  intro input rest hinput hrest
  obtain ⟨hfirst, hmore⟩ := List.forall_mem_cons.1 hparts
  obtain ⟨used, others, rfl, hused, hothers⟩ := List.map_eq_append_iff.1 hinput
  rw [h.whole, List.append_assoc, hfirst used _ hused (h.follows hothers hrest)]
  show (readMore (others ++ rest)).map _ = _
  rw [h.readMore_behind hmore hothers hrest]
  rfl

theorem Stacked.isRead_one (h : Stacked finish mark lower upper wrap readMore)
    {tokens : List Lexeme} (hpart : IsRead finish lower tokens part) :
    IsRead finish upper tokens part := by
  have hone := h.isRead (tokens, part) [] (List.forall_mem_singleton.2 hpart)
  rwa [behind, List.flatMap_nil, List.append_nil] at hone

theorem Stacked.isRead_several (h : Stacked finish mark lower upper wrap readMore)
    (hseveral : 2 ≤ pieces.length)
    (hparts : ∀ piece ∈ pieces, IsRead finish lower piece.1 piece.2) :
    IsRead finish upper ([.mark mark].intercalate (pieces.map Prod.fst))
      (wrap (pieces.map Prod.snd)) := by
  obtain _ | ⟨first, _ | ⟨second, more⟩⟩ := pieces
  · cases hseveral
  · exact absurd hseveral (by simp)
  · rw [intercalate_eq]
    exact h.isRead first (second :: more) hparts

end

/-- **What is written is read**, by induction on how it is written. -/
theorem isRead_of_writes {level : Level} {tokens : List Lexeme} (h : Writes level tokens part)
    (finish : ℕ) : IsRead finish level tokens part := by
  induction h with
  | literal text | name text =>
    intro input rest hinput _
    obtain ⟨⟨lexeme, position⟩, others, rfl, rfl, hnil⟩ := List.map_eq_cons_iff.1 hinput
    obtain rfl := List.map_eq_nil_iff.1 hnil
    rw [readLevel, List.cons_append, readFactor]
    rfl
  | optional _ ih => exact isRead_enclosed (.head _) ih
  | repetition _ ih => exact isRead_enclosed (.tail _ (.head _)) ih
  | group _ ih => exact isRead_enclosed (.tail _ (.tail _ (.head _))) ih
  | single _ ih => exact (stacked_sequence finish).isRead_one ih
  | sequence hseveral _ ih => exact (stacked_sequence finish).isRead_several hseveral ih
  | only _ ih => exact (stacked_alternatives finish).isRead_one ih
  | choice hseveral _ ih => exact (stacked_alternatives finish).isRead_several hseveral ih

end Worksheet.Ebnf
