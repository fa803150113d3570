import Worksheet.Proofs.Ebnf.Arena

/-!
# Reading into an arena

Read by offsets, a source gives what its lexemes give. Wherever a rest of the
source stands, two readers come to the same end (`Agrees`): either both find the
same fault, which is then where a rest stands, or what they find is related, and
the lexemes that are left are those of the rest behind it (`Leaves`). No cut is
ever broken, since a broken cut agrees with nothing.

Readers agree when their parts do one after the other (`Agrees.bind`), and when
they do behind the blanks and comments that come first (`agrees_skipBlank`).
-/

namespace Worksheet.Ebnf

open Text

variable {source text rest inside : List Char} {offset : ℕ} {c mark : Char}

/-! ## Comments and literals

The end of a comment or of a literal is looked for in the bytes of the text
by `find?`; the lexemes take it from the characters. Both come to the same
place. -/

theorem find?_quote (inside : List Char) :
    find? ['"'] inside = (literalBody? inside).map fun found => byteLength found.1 := by
  fun_induction literalBody? inside with
  | case1 => rfl
  | case2 rest => rfl
  | case3 c rest hc ih =>
    have hne : ('"' : Char) ≠ c := fun heq => hc heq.symm
    rw [find?, drop?, if_neg hne, ih]
    cases literalBody? rest <;> rfl

/-- A comment ends two bytes behind the place that is found. -/
theorem find?_commentEnd (inside : List Char) :
    find? ['*', ')'] inside = (afterComment? inside).map fun rest => position inside rest - 2 := by
  fun_induction afterComment? inside with
  | case1 => rfl
  | case2 rest =>
    have hstands : StandsAt ('*' :: ')' :: rest) 2 rest := standsAt_iff.2 ⟨['*', ')'], rfl, rfl⟩
    rw [find?, drop?, drop?, drop?, if_pos rfl, if_pos rfl, Option.isSome_some, if_pos rfl,
      Option.map_some, hstands.position_eq]
  | case3 c rest hopen ih =>
    have hdrop : ¬(drop? ['*', ')'] (c :: rest)).isSome = true := by
      intro hsome
      obtain ⟨after, hafter⟩ := Option.isSome_iff_exists.1 hsome
      obtain ⟨rfl, rfl⟩ := List.cons.inj (drop?_eq_some_iff.1 hafter)
      exact hopen after rfl rfl
    rw [find?, if_neg hdrop, ih]
    cases hafter : afterComment? rest with
    | none => rfl
    | some after =>
      obtain ⟨body, rfl, -⟩ := exists_of_afterComment? hafter
      have hend := byteLength_append ['*', ')'] after
      have hlength : byteLength (body ++ '*' :: ')' :: after) = byteLength body + _ :=
        (byteLength_append ..).trans (congrArg _ hend)
      have htwo : byteLength ['*', ')'] = 2 := rfl
      simp only [Option.map_some, position, byteLength_cons c, hlength, Option.some.injEq]
      omega

theorem standsAt_of_afterComment? (h : StandsAt source offset inside)
    (hafter : afterComment? inside = some rest) {length : ℕ}
    (hfound : find? ['*', ')'] inside = some length) :
    StandsAt source (offset + length + 2) rest := by
  obtain ⟨body, hbody, -⟩ := exists_of_afterComment? hafter
  obtain rfl : inside = (body ++ ['*', ')']) ++ rest := by rw [hbody, List.append_assoc]; rfl
  rw [find?_commentEnd, hafter, Option.map_some, position_append, Option.some.injEq,
    byteLength_append] at hfound
  obtain rfl : byteLength body = length := hfound
  have hrest := h.append
  rwa [byteLength_append, ← Nat.add_assoc] at hrest

/-! ## Blanks

Blanks and comments give no lexemes, so a reader may go over them first. What
stands at the offset then is `Bare`, and its first character tells which lexeme
comes next (`lexemes_of_bare`). -/

theorem isAscii_isAsciiBlank : IsAscii isAsciiBlank := fun c hc => by
  have hmem := mem_blankChars hc
  simp only [blankChars, List.mem_cons, List.not_mem_nil, or_false] at hmem
  rcases hmem with rfl | rfl | rfl | rfl | rfl <;> decide

theorem lexemes_blank (h : isAsciiBlank c = true) :
    lexemes source (c :: rest) = lexemes source rest := by
  rw [lexemes, if_pos h]
  · rintro inside rfl rfl
    cases h
  · rintro rfl
    cases h

/-- Neither a blank nor a comment comes next. -/
structure Bare (text : List Char) : Prop where
  blank : text.head?.any isAsciiBlank = false
  comment : ¬['(', '*'] <+: text

/-- **The lexeme that comes next**, if no blank and no comment does: its first
character tells which. -/
theorem lexemes_of_bare (h : Bare (c :: rest)) :
    lexemes source (c :: rest) =
      if c = '"' then
        match literalBody? rest with
        | some ([], after) => ⟨.emptyLiteral, position source (c :: rest)⟩ :: lexemes source after
        | some (body, after) =>
          ⟨.literal body, position source (c :: rest)⟩ :: lexemes source after
        | none => [⟨.openLiteral, position source (c :: rest)⟩]
      else if isNameStart c then
        ⟨.name (c :: rest.takeWhile isNamePart), position source (c :: rest)⟩
          :: lexemes source (rest.dropWhile isNamePart)
      else ⟨.mark c, position source (c :: rest)⟩ :: lexemes source rest := by
  by_cases hquote : c = '"'
  · subst hquote
    rw [if_pos rfl, lexemes]
    split <;> rename_i hbody <;> simp only [hbody]
  · rw [if_neg hquote, lexemes]
    · have hblank : ¬isAsciiBlank c = true := Bool.eq_false_iff.1 h.blank
      rw [if_neg hblank]
    · rintro inside rfl rfl
      exact h.comment ⟨inside, rfl⟩
    · exact hquote

/-- What is wrong with a source is between two of its characters or at an end. -/
def GrammarError.Within (source : List Char) : GrammarError → Prop
  | .badSyntax position _ => ∃ rest, StandsAt source position rest
  | _ => True

theorem standsAt_comment (h : StandsAt source offset text)
    (hopen : (drop? ['(', '*'] text).isSome = true) :
    ∃ inside, text = '(' :: '*' :: inside ∧ StandsAt source (offset + 2) inside := by
  obtain ⟨inside, hinside⟩ := Option.isSome_iff_exists.1 hopen
  obtain rfl := drop?_eq_some_iff.1 hinside
  exact ⟨inside, rfl, h.append⟩

theorem lexemes_openComment (h : afterComment? inside = none) :
    lexemes source ('(' :: '*' :: inside)
      = [⟨.openComment, position source ('(' :: '*' :: inside)⟩] := by
  rw [lexemes]
  split
  · rename_i hsome
    rw [h] at hsome
    cases hsome
  · rfl

/-- **Blanks and comments end** at what is neither, or there is a comment
without an end. Either way the lexemes stay the same, as none come of blanks and
comments. -/
theorem blankEnd_cases (h : StandsAt source offset text) :
    (∃ start rest, blankEnd source offset = .ok start ∧ StandsAt source start rest ∧ Bare rest ∧
      lexemes source text = lexemes source rest) ∨
    ∃ start rest, blankEnd source offset = .error (.at start .openComment) ∧
      StandsAt source start rest ∧ lexemes source text = [⟨.openComment, start⟩] := by
  fun_induction blankEnd source offset generalizing text with
  | case1 offset hblank ih =>
    rw [h.any_byteAt? isAscii_isAsciiBlank] at hblank
    obtain ⟨c, hhead, hc⟩ := (Option.any_eq_true _ _).1 hblank
    obtain ⟨rest, rfl⟩ := List.head?_eq_some_iff.1 hhead
    rw [lexemes_blank hc]
    exact ih (h.cons_of_lt (isAscii_isAsciiBlank c hc))
  | case2 offset hblank cut hcut => cases h.cutFrom_eq.symm.trans hcut
  | case3 offset hblank hcut =>
    obtain rfl := Except.ok.inj (h.cutFrom_eq.symm.trans hcut)
    exact .inl ⟨offset, [], rfl, h, ⟨rfl, by decide⟩, rfl⟩
  | case4 offset hblank c rest hcut hopen cut hinside =>
    obtain rfl := Except.ok.inj (h.cutFrom_eq.symm.trans hcut)
    obtain ⟨after, -, hafter⟩ := standsAt_comment h hopen
    cases hafter.cutFrom_eq.symm.trans hinside
  | case5 offset hblank c rest hcut hopen inside hinside length hfound ih =>
    obtain rfl := Except.ok.inj (h.cutFrom_eq.symm.trans hcut)
    -- a comment that closes is passed over, and the blanks behind it by the
    -- induction
    obtain ⟨after, htext, hafter⟩ := standsAt_comment h hopen
    obtain rfl := Except.ok.inj (hafter.cutFrom_eq.symm.trans hinside)
    have hfound' := hfound
    rw [find?_commentEnd] at hfound'
    obtain ⟨rest', hcomment, -⟩ := Option.map_eq_some_iff.1 hfound'
    rw [htext, lexemes_comment hcomment]
    exact ih (standsAt_of_afterComment? hafter hcomment hfound)
  | case6 offset hblank c rest hcut hopen inside hinside hfound =>
    obtain rfl := Except.ok.inj (h.cutFrom_eq.symm.trans hcut)
    obtain ⟨after, htext, hafter⟩ := standsAt_comment h hopen
    obtain rfl := Except.ok.inj (hafter.cutFrom_eq.symm.trans hinside)
    rw [find?_commentEnd, Option.map_eq_none_iff] at hfound
    refine .inr ⟨offset, _, rfl, h, ?_⟩
    rw [htext, lexemes_openComment hfound, ← htext, h.position_eq]
  | case7 offset hblank c rest hcut hopen =>
    obtain rfl := Except.ok.inj (h.cutFrom_eq.symm.trans hcut)
    refine .inl ⟨offset, c :: rest, rfl, h, ⟨?_, ?_⟩, rfl⟩
    · rw [h.any_byteAt? isAscii_isAsciiBlank] at hblank
      exact Bool.eq_false_iff.2 hblank
    · rintro ⟨after, hafter⟩
      exact hopen (Option.isSome_iff_exists.2 ⟨after, drop?_eq_some_iff.2 hafter.symm⟩)

/-- What comes next is a lexeme that starts where the rest stands. -/
theorem exists_lexeme_of_bare (h : StandsAt source offset (c :: rest)) (hbare : Bare (c :: rest)) :
    ∃ lexeme more, lexemes source (c :: rest) = ⟨lexeme, offset⟩ :: more ∧
      lexeme ≠ .openComment ∧ (∀ d, lexeme = .mark d → c = d) ∧
      ∀ name, lexeme = .name name → isNameStart c = true := by
  rw [lexemes_of_bare hbare, h.position_eq]
  split
  · split <;> exact ⟨_, _, rfl, nofun, nofun, nofun⟩
  · split
    · rename_i hstart
      exact ⟨_, _, rfl, nofun, nofun, fun _ _ => hstart⟩
    · exact ⟨_, _, rfl, nofun, fun d hd => Lexeme.mark.inj hd, nofun⟩

theorem head_of_bare (h : StandsAt source offset text) (hbare : Bare text) :
    ∀ placed ∈ (lexemes source text).head?, placed.lexeme ≠ .openComment ∧
      (∀ d, placed.lexeme = .mark d → text.head? = some d) ∧
      ∀ name, placed.lexeme = .name name → text.head?.any isNameStart = true := by
  intro placed hplaced
  cases text with
  | nil =>
    rw [lexemes] at hplaced
    cases hplaced
  | cons c rest =>
    obtain ⟨lexeme, more, hlexemes, hopen, hmark, hname⟩ := exists_lexeme_of_bare h hbare
    rw [hlexemes] at hplaced
    obtain rfl := Option.some.inj hplaced
    exact ⟨hopen, fun d hd => congrArg some (hmark d hd), hname⟩

theorem exists_of_byteAt? (h : StandsAt source offset text) (hmark : mark.toNat < 128)
    (hbyte : byteAt? source offset = some mark) :
    ∃ rest, text = mark :: rest ∧ StandsAt source (offset + 1) rest := by
  obtain ⟨rest, rfl⟩ := List.head?_eq_some_iff.1 ((h.byteAt?_eq_some_iff hmark).1 hbyte)
  exact ⟨rest, rfl, h.cons_of_lt hmark⟩

/-- A fault is where the rest stands: at the first lexeme of it, or at the end
of the source. -/
theorem faultAt_of_bare (h : StandsAt source offset text) (hbare : Bare text)
    (fault : SyntaxFault) :
    faultAt (byteLength source) (lexemes source text) fault = .badSyntax offset fault := by
  cases text with
  | nil =>
    have hend := h.add_byteLength
    rw [byteLength_nil, Nat.add_zero] at hend
    rw [lexemes, hend]
    rfl
  | cons c rest =>
    obtain ⟨lexeme, more, hlexemes, hopen, -, -⟩ := exists_lexeme_of_bare h hbare
    rw [hlexemes, faultAt]
    split
    · rename_i heq
      exact absurd heq hopen
    · rfl

/-! ## Agreement

`Agrees` is stated for one reader by offsets and one of lexemes, and is closed
under what readers are built with: a step and what comes after it, a change of
the result, and going over blanks. The lemmas on marks, names and literals are
its base cases. -/

/-- **Two readers agree**: they find the same fault, within the source, or what
they find is related. A `Halt.broken` agrees with nothing. -/
def Agrees {α β : Type} (source : List Char) (related : α → β → Prop) (found : Except Halt α)
    (read : Except GrammarError β) : Prop :=
  (∃ error, found = .error (.fault error) ∧ read = .error error ∧ error.Within source) ∨
    ∃ a b, found = .ok a ∧ read = .ok b ∧ related a b

namespace Agrees

variable {α β γ δ : Type} {related : α → β → Prop} {related' : γ → δ → Prop}
  {found : Except Halt α} {read : Except GrammarError β}

/-- What comes next agrees when it does for all that is related. -/
theorem bind {next : α → Except Halt γ} {next' : β → Except GrammarError δ}
    (h : Agrees source related found read)
    (hnext : ∀ a b, related a b → Agrees source related' (next a) (next' b)) :
    Agrees source related' (found >>= next) (read.bind next') := by
  rcases h with ⟨error, rfl, rfl, hwithin⟩ | ⟨a, b, rfl, rfl, hrelated⟩
  · exact .inl ⟨error, rfl, rfl, hwithin⟩
  · exact hnext a b hrelated

theorem map {change : α → γ} {change' : β → δ} (h : Agrees source related found read)
    (hchange : ∀ a b, related a b → related' (change a) (change' b)) :
    Agrees source related' (found.map change) (read.map change') :=
  h.bind fun a b hrelated => .inr ⟨change a, change' b, rfl, rfl, hchange a b hrelated⟩

theorem ok {a : α} {b : β} (h : related a b) : Agrees source related (.ok a) (.ok b) :=
  .inr ⟨a, b, rfl, rfl, h⟩

theorem fault {error : GrammarError} (h : error.Within source)
    (hread : read = .error error) : Agrees source related (.error (.fault error)) read :=
  .inl ⟨error, rfl, hread, h⟩

end Agrees

/-- **Blanks and comments are skipped** and leave no lexemes; a comment without
an end is the lexeme that is left. So a reader may be compared on a rest that is
`Bare`. -/
theorem agrees_skipBlank {α β : Type} {related : α → β → Prop}
    {next : { start : ℕ // offset ≤ start } → Except Halt α}
    (read : List Placed → Except GrammarError β) (h : StandsAt source offset text)
    (hopen : ∀ position, lexemes source text = [⟨.openComment, position⟩] →
      read [⟨.openComment, position⟩] = .error (.badSyntax position .openComment))
    (hnext : ∀ start (hstart : offset ≤ start) rest, StandsAt source start rest → Bare rest →
      Agrees source related (next ⟨start, hstart⟩) (read (lexemes source rest))) :
    Agrees source related (skipBlank source offset >>= next) (read (lexemes source text)) := by
  rw [skipBlank]
  rcases blankEnd_cases h with ⟨start, rest, hend, hstart, hbare, hlexemes⟩
    | ⟨start, rest, hend, hstart, hlexemes⟩
  · rw [hlexemes]
    split <;> rename_i heq <;> cases hend.symm.trans heq
    exact hnext start (le_of_blankEnd hend) rest hstart hbare
  · split <;> rename_i heq <;> cases hend.symm.trans heq
    refine .fault ⟨rest, hstart⟩ ?_
    rw [hlexemes]
    exact hopen start hlexemes

/-- The lexemes that are left are those of the rest at an offset. -/
def Leaves (source : List Char) (stop : ℕ) (left : List Placed) : Prop :=
  ∃ rest, StandsAt source stop rest ∧ left = lexemes source rest

theorem plain_readMark_of_ne {input : List Placed}
    (h : ∀ placed ∈ input.head?, placed.lexeme ≠ .mark mark) (finish : ℕ) :
    plain (readMark finish mark input) = .error (faultAt finish input (.expected mark)) := by
  cases input with
  | nil => rfl
  | cons placed more =>
    rw [readMark, if_neg (h placed rfl)]
    rfl

theorem lexemes_mark (hmark : mark ∈ marks) (h : StandsAt source offset (mark :: rest))
    (hbare : Bare (mark :: rest)) :
    lexemes source (mark :: rest) = ⟨.mark mark, offset⟩ :: lexemes source rest := by
  obtain ⟨-, hstart, -, hquote⟩ := isAsciiBlank_of_mem_marks hmark
  rw [lexemes_of_bare hbare, h.position_eq, if_neg hquote, hstart, if_neg Bool.false_ne_true]

theorem lt_of_mem_marks (hmark : mark ∈ marks) : mark.toNat < 128 := by
  have hall : marks.all (fun c => decide (c.toNat < 128)) = true := by decide
  exact of_decide_eq_true (List.all_eq_true.1 hall mark hmark)

/-- **A mark is expected** where the lexeme of it is, and is one byte. -/
theorem agrees_expectAt (hmark : mark ∈ marks) (h : StandsAt source offset text) :
    Agrees source (fun stop read => Leaves source stop.1 read.2) (expectAt source mark offset)
      (plain (readMark (byteLength source) mark (lexemes source text))) := by
  refine agrees_skipBlank (fun input => plain (readMark _ mark input)) h (fun _ _ => rfl) ?_
  intro start hle rest hstart hbare
  dsimp only
  split
  · rename_i hbyte
    obtain ⟨after, rfl, hafter⟩ := exists_of_byteAt? hstart (lt_of_mem_marks hmark) hbyte
    rw [lexemes_mark hmark hstart hbare]
    exact .inr ⟨_, ((), lexemes source after), rfl, plain_readMark_eq_ok_iff.2 ⟨start, rfl⟩, after,
      hafter, rfl⟩
  · rename_i hbyte
    refine .fault ⟨rest, hstart⟩ ?_
    rw [plain_readMark_of_ne, faultAt_of_bare hstart hbare]
    intro placed hplaced heq
    obtain ⟨-, hhead, -⟩ := head_of_bare hstart hbare placed hplaced
    exact hbyte ((hstart.byteAt?_eq_some_iff (lt_of_mem_marks hmark)).2 (hhead mark heq))

theorem isAscii_isNamePart : IsAscii isNamePart := fun c hc => by
  simp only [isNamePart, Char.isAlphanum, Bool.or_eq_true, isAlpha_iff_toNat,
    Char.isDigit_iff_toNat, beq_iff_eq] at hc
  rcases hc with (halpha | hdigit) | rfl
  · omega
  · have hbounds : 48 ≤ c.toNat ∧ c.toNat ≤ 57 := hdigit
    omega
  · decide

theorem isNamePart_of_isNameStart (h : isNameStart c = true) : isNamePart c = true := by
  simp only [isNameStart, isNamePart, Char.isAlphanum, Bool.or_eq_true] at h ⊢
  exact h.imp_left .inl

theorem plain_readName_of_ne {input : List Placed}
    (h : ∀ placed ∈ input.head?, ∀ name, placed.lexeme ≠ .name name) (finish : ℕ) :
    plain (readName finish input) = .error (faultAt finish input .expectedName) := by
  cases input with
  | nil => rfl
  | cons placed more =>
    obtain ⟨lexeme, position⟩ := placed
    cases lexeme with
    | name name => exact absurd rfl (h _ rfl name)
    | _ => rfl

/-- The name that starts at an offset: the bytes that may be in a name are the
characters that may. -/
theorem cutRange_name (h : StandsAt source offset (c :: rest)) (hc : isNameStart c = true) :
    let stop := offset + 1
      + (((bytes source).drop (offset + 1)).takeWhile (onBytes isNamePart)).length
    cutRange source offset stop = .ok (c :: rest.takeWhile isNamePart) ∧
      StandsAt source stop (rest.dropWhile isNamePart) := by
  have hlt := isAscii_isNamePart c (isNamePart_of_isNameStart hc)
  have hrest := h.cons_of_lt hlt
  have hone : byteLength (c :: rest.takeWhile isNamePart)
      = 1 + byteLength (rest.takeWhile isNamePart) := by
    rw [← List.singleton_append, byteLength_append,
      byteLength_of_all (List.forall_mem_singleton.2 hlt), List.length_singleton]
  rw [hrest.drop_bytes, isAscii_isNamePart.takeWhile_bytes, length_bytes, Nat.add_assoc, ← hone]
  rw [← List.takeWhile_append_dropWhile (p := isNamePart) (l := rest), ← List.cons_append] at h
  exact ⟨h.cutRange_eq, h.append⟩

/-- **A name is taken** where the lexeme of it is. -/
theorem agrees_nameAt (h : StandsAt source offset text) :
    Agrees source (fun taken read => taken.text = read.1 ∧ Leaves source taken.stop read.2)
      (nameAt source offset) (plain (readName (byteLength source) (lexemes source text))) := by
  refine agrees_skipBlank (fun input => plain (readName _ input)) h (fun _ _ => rfl) ?_
  intro start hle rest hstart hbare
  have hascii : IsAscii isNameStart := fun c hc =>
    isAscii_isNamePart c (isNamePart_of_isNameStart hc)
  dsimp only
  rw [hstart.any_byteAt? hascii]
  split
  · rename_i hany
    obtain ⟨c, hhead, hc⟩ := (Option.any_eq_true _ _).1 hany
    obtain ⟨rest, rfl⟩ := List.head?_eq_some_iff.1 hhead
    obtain ⟨hcut, hstop⟩ := cutRange_name hstart hc
    have hquote : c ≠ '"' := by
      rintro rfl
      cases hc
    rw [lexemes_of_bare hbare, if_neg hquote, if_pos hc, hcut]
    exact .ok (b := (c :: rest.takeWhile isNamePart, lexemes source (rest.dropWhile isNamePart)))
      ⟨rfl, _, hstop, rfl⟩
  · rename_i hany
    refine .fault ⟨rest, hstart⟩ ?_
    rw [plain_readName_of_ne, faultAt_of_bare hstart hbare]
    intro placed hplaced name heq
    obtain ⟨-, -, hname⟩ := head_of_bare hstart hbare placed hplaced
    exact hany (hname name heq)

/-- **A literal is taken out** of its quotation marks, if it has both and
something in them. -/
theorem agrees_literalAt (h : StandsAt source offset ('"' :: inside)) (finish : ℕ) :
    Agrees source (fun taken read => read.1 = .literal taken.text ∧ Leaves source taken.stop read.2)
      (literalAt source offset) (plain (readFactor finish (lexemes source ('"' :: inside)))) := by
  have hbare : Bare ('"' :: inside) := ⟨rfl, fun ⟨after, hafter⟩ => by cases hafter⟩
  have hinside : StandsAt source (offset + 1) inside := h.cons_of_lt (by decide)
  rw [lexemes_of_bare hbare, if_pos rfl, h.position_eq, literalAt, hinside.cutFrom_eq]
  dsimp only [Except.mapError, bind, Except.bind]
  rw [find?_quote]
  cases hbody : literalBody? inside with
  | none =>
    rw [readFactor]
    -- no quote closes the literal
    exact .fault ⟨_, h⟩ rfl
  | some found =>
    obtain ⟨body, after⟩ := found
    obtain ⟨rfl, -⟩ := exists_of_literalBody? hbody
    cases body with
    | nil =>
      dsimp only
      rw [readFactor]
      exact .fault ⟨_, h⟩ rfl
    | cons c body =>
      -- a literal with something in it: the offset found is the length of its
      -- body
      have hstop := hinside.append.cons_of_lt (by decide)
      rw [Option.map_some]
      split <;> rename_i heq
      · cases heq
      · have hpos := c.utf8Size_pos
        rw [byteLength_cons, Option.some.injEq] at heq
        omega
      · rename_i length _
        obtain rfl := Option.some.inj heq
        rw [hinside.cutRange_eq, readFactor]
        exact .ok (b := (Expr.literal (c :: body), lexemes source after))
          ⟨rfl, after, hstop, rfl⟩

end Worksheet.Ebnf
