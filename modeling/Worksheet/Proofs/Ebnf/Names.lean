import Mathlib.Data.List.Nodup
import Worksheet.Ebnf.Grammar
import Worksheet.Proofs.Answers

/-!
# The names in a grammar

Every name that a grammar uses stands for something (`StandsFor`): the rule of
that name, wherever it is defined, or else a terminal. Resolving the names of
expressions succeeds when all of them can be looked up, and puts what each
stands for in its place (`resolveRules_eq_ok_iff`). Nothing else of an
expression changes.
-/

namespace Worksheet.Ebnf

variable {S S' T : Type}

namespace Expr

mutual

/-- The expression with other names. It has the same parts in the same places. -/
def map (f : S → S') : Expr S → Expr S'
  | .literal text => .literal text
  | .symbol name => .symbol (f name)
  | .sequence parts => .sequence (mapAll f parts)
  | .choice parts => .choice (mapAll f parts)
  | .optional part => .optional (part.map f)
  | .repetition part => .repetition (part.map f)

def mapAll (f : S → S') : List (Expr S) → List (Expr S')
  | [] => []
  | part :: parts => part.map f :: mapAll f parts

end

mutual

/-- The names in an expression, from left to right. -/
def names : Expr S → List S
  | .literal _ => []
  | .symbol name => [name]
  | .sequence parts | .choice parts => namesAll parts
  | .optional part | .repetition part => part.names

def namesAll : List (Expr S) → List S
  | [] => []
  | part :: parts => part.names ++ namesAll parts

end

variable {look : S → Except GrammarError S'} {meaning : S → S'}

mutual

/-- **Names that can be looked up are replaced by what they stand for.** So
resolving is `Expr.map` wherever it succeeds. -/
theorem resolve_of_look (e : Expr S) (h : ∀ name ∈ e.names, look name = .ok (meaning name)) :
    e.resolve look = .ok (e.map meaning) := by
  cases e with
  | literal text => rfl
  | symbol name =>
    rw [resolve, h name (List.mem_singleton.2 rfl)]
    rfl
  | sequence parts =>
    rw [resolve, resolveAll_of_look parts h]
    rfl
  | choice parts =>
    rw [resolve, resolveAll_of_look parts h]
    rfl
  | optional part =>
    rw [resolve, resolve_of_look part h]
    rfl
  | repetition part =>
    rw [resolve, resolve_of_look part h]
    rfl

theorem resolveAll_of_look (parts : List (Expr S))
    (h : ∀ name ∈ namesAll parts, look name = .ok (meaning name)) :
    resolveAll look parts = .ok (mapAll meaning parts) := by
  cases parts with
  | nil => rfl
  | cons part parts =>
    rw [namesAll, List.forall_mem_append] at h
    rw [resolveAll, resolve_of_look part h.1, resolveAll_of_look parts h.2]
    rfl

end

mutual

/-- **All names of an expression that is resolved can be looked up.** -/
theorem look_of_resolve (e : Expr S) {e' : Expr S'} (h : e.resolve look = .ok e') :
    ∀ name ∈ e.names, ∃ found, look name = .ok found := by
  cases e with
  | literal text => exact fun _ hname => absurd hname List.not_mem_nil
  | symbol name =>
    obtain ⟨found, hfound, -⟩ := exists_of_map_eq_ok h
    exact List.forall_mem_singleton.2 ⟨found, hfound⟩
  | sequence parts | choice parts =>
    obtain ⟨found, hfound, -⟩ := exists_of_map_eq_ok h
    exact look_of_resolveAll parts hfound
  | optional part | repetition part =>
    obtain ⟨found, hfound, -⟩ := exists_of_map_eq_ok h
    exact look_of_resolve part hfound

theorem look_of_resolveAll (parts : List (Expr S)) {parts' : List (Expr S')}
    (h : resolveAll look parts = .ok parts') :
    ∀ name ∈ namesAll parts, ∃ found, look name = .ok found := by
  cases parts with
  | nil => exact fun _ hname => absurd hname List.not_mem_nil
  | cons part parts =>
    rw [resolveAll] at h
    split at h
    · cases h
    · rename_i found hpart
      obtain ⟨others, hparts, -⟩ := exists_of_map_eq_ok h
      rw [namesAll]
      exact List.forall_mem_append.2
        ⟨look_of_resolve part hpart, look_of_resolveAll parts hparts⟩

end

end Expr

def Rule.map (f : S → S') (rule : Rule S) : Rule S' :=
  ⟨rule.name, rule.body.map f⟩

/-- The names that some rules use, in the order of the rules. -/
def namesOf (rules : List (Rule S)) : List S :=
  rules.flatMap fun rule => rule.body.names

variable {look : S → Except GrammarError S'} {meaning : S → S'} {rules : List (Rule S)}

theorem resolveRules_of_look (h : ∀ name ∈ namesOf rules, look name = .ok (meaning name)) :
    resolveRules look rules = .ok (rules.map (Rule.map meaning)) := by
  induction rules with
  | nil => rfl
  | cons rule rules ih =>
    rw [namesOf, List.flatMap_cons, List.forall_mem_append] at h
    rw [resolveRules, rule.body.resolve_of_look h.1, ih h.2]
    rfl

theorem look_of_resolveRules {rules' : List (Rule S')} (h : resolveRules look rules = .ok rules') :
    ∀ name ∈ namesOf rules, ∃ found, look name = .ok found := by
  induction rules generalizing rules' with
  | nil => exact fun _ hname => absurd hname List.not_mem_nil
  | cons rule rules ih =>
    rw [resolveRules] at h
    split at h
    · cases h
    · rename_i body hbody
      obtain ⟨others, hothers, -⟩ := exists_of_map_eq_ok h
      rw [namesOf, List.flatMap_cons]
      exact List.forall_mem_append.2 ⟨rule.body.look_of_resolve hbody, ih hothers⟩

/-- **Rules are resolved when their names can be looked up**, and only their
names change. What a name that no rule uses stands for does not matter. -/
theorem resolveRules_eq_ok_iff [Inhabited S'] {rules' : List (Rule S')} :
    resolveRules look rules = .ok rules'
      ↔ ∃ meaning, (∀ name ∈ namesOf rules, look name = .ok (meaning name))
        ∧ rules' = rules.map (Rule.map meaning) := by
  constructor
  · intro h
    -- a name that is not used may stand for anything
    let meaning (name : S) : S' := (look name).toOption.getD default
    have hmeaning : ∀ name ∈ namesOf rules, look name = .ok (meaning name) := by
      intro name hname
      obtain ⟨found, hfound⟩ := look_of_resolveRules h name hname
      show look name = .ok ((look name).toOption.getD default)
      rw [hfound]
      rfl
    exact ⟨meaning, hmeaning, Except.ok.inj (h.symm.trans (resolveRules_of_look hmeaning))⟩
  · rintro ⟨meaning, hmeaning, rfl⟩
    exact resolveRules_of_look hmeaning

/-! ## Looking names up

A name stands for the rule that has it, wherever in the source that is, and
else for a terminal. Where no two rules share a name, `lookUp` answers with
just that. -/

/-- **What a name stands for** among some rules and terminals. A rule hides a
terminal of its name. -/
inductive StandsFor (rules : List (Rule S)) (terminal? : List Char → Option T)
    (name : List Char) : Symbol T → Prop
  | rule {index : ℕ} (h : (rules.map Rule.name)[index]? = some name) :
      StandsFor rules terminal? name (.rule index)
  /-- A terminal has a name that no rule has. -/
  | terminal {found : T} (hrule : name ∉ rules.map Rule.name) (h : terminal? name = some found) :
      StandsFor rules terminal? name (.terminal found)

/-- A rule is found by its name where no other has it. -/
theorem ruleIndex?_eq_some_iff (hnames : (rules.map Rule.name).Nodup) {name : List Char}
    {index : ℕ} :
    ruleIndex? rules name = some index ↔ (rules.map Rule.name)[index]? = some name := by
  have hfind : ruleIndex? rules name = (rules.map Rule.name).findIdx? (· == name) := by
    rw [List.findIdx?_map]
    rfl
  rw [hfind, List.findIdx?_eq_some_iff_getElem, List.getElem?_eq_some_iff]
  refine ⟨fun ⟨hlt, hname, _⟩ => ⟨hlt, beq_iff_eq.1 hname⟩, fun ⟨hlt, hname⟩ =>
    ⟨hlt, beq_iff_eq.2 hname, fun earlier hearlier hother => ?_⟩⟩
  have hsame := hnames.getElem_inj_iff.1 ((beq_iff_eq.1 hother).trans hname.symm)
  omega

theorem ruleIndex?_eq_none_iff {name : List Char} :
    ruleIndex? rules name = none ↔ name ∉ rules.map Rule.name := by
  rw [ruleIndex?, List.findIdx?_eq_none_iff, List.mem_map, not_exists]
  refine forall_congr' fun rule => ?_
  rw [not_and, beq_eq_false_iff_ne]

/-- **A name is looked up to what it stands for**, if no two rules have the same
name. -/
theorem lookUp_eq_ok_iff {rules : List (Rule (List Char))} {terminal? : List Char → Option T}
    (hnames : (rules.map Rule.name).Nodup) {name : List Char} {symbol : Symbol T} :
    lookUp rules terminal? name = .ok symbol ↔ StandsFor rules terminal? name symbol := by
  constructor
  · intro h
    unfold lookUp at h
    split at h
    · rename_i index hrule
      cases h
      exact .rule ((ruleIndex?_eq_some_iff hnames).1 hrule)
    · rename_i found hrule hterminal
      cases h
      exact .terminal (ruleIndex?_eq_none_iff.1 hrule) hterminal
    · cases h
  · intro h
    cases h with
    | rule hindex => rw [lookUp, (ruleIndex?_eq_some_iff hnames).2 hindex]
    | terminal hrule hterminal => rw [lookUp, ruleIndex?_eq_none_iff.2 hrule, hterminal]

end Worksheet.Ebnf
