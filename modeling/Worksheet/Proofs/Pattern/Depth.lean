import Mathlib.Data.List.Basic
import Worksheet.Pattern.Grammar

/-!
# How deep the rules of a grammar nest

Rules are evaluated to a depth that is fixed in advance. In a grammar whose
rules stand in layers, each calling only rules of layers below its own
(`Grammar.Layered`), nothing hangs on it: past the layer of a rule, more depth
changes nothing (`evaluateRule_congr`), and a rule comes to what its own
expression comes to, with the very same calls (`evaluateRule_eq`).

The rules of patterns stand in four layers, fewer than the grammar has rules.
-/

namespace Worksheet

namespace Ebnf

mutual

/-- The rules an expression calls. -/
def Expr.calls {T : Type} : Expr (Symbol T) → List Nat
  | .literal _ => []
  | .symbol (.rule index) => [index]
  | .symbol (.terminal _) => []
  | .sequence parts => callsOf parts
  | .choice parts => callsOf parts
  | .optional part => part.calls
  | .repetition part => part.calls

/-- The rules some expressions call. -/
def callsOf {T : Type} : List (Expr (Symbol T)) → List Nat
  | [] => []
  | part :: parts => part.calls ++ callsOf parts

end

/-- **The rules of a grammar stand in layers**: each calls only rules below its
own. So no rule calls itself, through however many others. -/
def Grammar.Layered {T : Type} (grammar : Grammar T) (layer : Nat → Nat) : Prop :=
  ∀ entry ∈ grammar.rules.zipIdx, ∀ callee ∈ entry.1.body.calls, layer callee < layer entry.2

theorem Grammar.Layered.layer_lt {T : Type} {grammar : Grammar T} {layer : Nat → Nat}
    (h : grammar.Layered layer) {index callee : Nat} {rule : Rule (Symbol T)}
    (hrule : grammar.rules[index]? = some rule) (hcallee : callee ∈ rule.body.calls) :
    layer callee < layer index :=
  h (rule, index) (List.mk_mem_zipIdx_iff_getElem?.2 hrule) callee hcallee

end Ebnf

namespace Pattern

open Ebnf

theorem repeatWhile_congr {step step' : List Char → Outcome} (h : ∀ input, step input = step' input)
    (input : List Char) : repeatWhile step input = repeatWhile step' input := by
  rw [funext h]

mutual

/-- **An expression hangs only on the rules it calls**, and not on what others
would come to. -/
theorem evaluate_congr {call call' : Nat → List Char → Outcome} :
    ∀ (e : Expr (Symbol Terminal)) (input : List Char),
      (∀ index ∈ e.calls, call index = call' index) → evaluate call e input = evaluate call' e input
  | .literal text, input, _ => by rw [evaluate, evaluate]
  | .symbol (.terminal terminal), input, _ => by rw [evaluate, evaluate]
  | .symbol (.rule index), input, h => by
    rw [evaluate, evaluate, h index (List.mem_singleton_self index)]
  | .sequence parts, input, h => by
    rw [evaluate, evaluate]
    exact evaluateAll_congr parts input h
  | .choice parts, input, h => by
    rw [evaluate, evaluate]
    exact evaluateFirst_congr parts input h
  | .optional part, input, h => by
    rw [evaluate, evaluate, evaluate_congr part input h]
  | .repetition part, input, h => by
    rw [evaluate, evaluate]
    exact repeatWhile_congr (fun text => evaluate_congr part text h) input

theorem evaluateAll_congr {call call' : Nat → List Char → Outcome} :
    ∀ (parts : List (Expr (Symbol Terminal))) (input : List Char),
      (∀ index ∈ callsOf parts, call index = call' index) →
        evaluateAll call parts input = evaluateAll call' parts input
  | [], input, _ => by rw [evaluateAll, evaluateAll]
  | part :: parts, input, h => by
    rw [callsOf, List.forall_mem_append] at h
    rw [evaluateAll, evaluateAll, evaluate_congr part input h.1]
    split
    · rw [evaluateAll_congr parts _ h.2]
    · rfl

theorem evaluateFirst_congr {call call' : Nat → List Char → Outcome} :
    ∀ (parts : List (Expr (Symbol Terminal))) (input : List Char),
      (∀ index ∈ callsOf parts, call index = call' index) →
        evaluateFirst call parts input = evaluateFirst call' parts input
  | [], input, _ => by rw [evaluateFirst, evaluateFirst]
  | part :: parts, input, h => by
    rw [callsOf, List.forall_mem_append] at h
    rw [evaluateFirst, evaluateFirst, evaluate_congr part input h.1,
      evaluateFirst_congr parts input h.2]

end

variable {grammar : Grammar Terminal} {layer : Nat → Nat}

/-- **Past the layer of a rule, more depth changes nothing.** By induction on
the depth: the rules that are called lie in lower layers. -/
theorem evaluateRule_congr (hlayers : grammar.Layered layer) {index depth depth' : Nat}
    (h : layer index < depth) (h' : layer index < depth') :
    evaluateRule grammar depth index = evaluateRule grammar depth' index := by
  induction depth generalizing index depth' with
  | zero => exact absurd h (Nat.not_lt_zero _)
  | succ depth ih =>
    cases depth' with
    | zero => exact absurd h' (Nat.not_lt_zero _)
    | succ depth' =>
      funext input
      rw [evaluateRule, evaluateRule]
      split
      · rfl
      · rename_i rule hrule
        refine congrArg (shaped rule.name) (evaluate_congr rule.body input fun callee hcallee => ?_)
        have hbelow := hlayers.layer_lt hrule hcallee
        exact ih (by omega) (by omega)

/-- **A rule comes to what its expression comes to**, called to the same depth,
while the definition goes one deeper with every call. This equation is what lets
the rules be treated as if there were no depth at all. -/
theorem evaluateRule_eq (hlayers : grammar.Layered layer) {index depth : Nat}
    {rule : Rule (Symbol Terminal)} (hrule : grammar.rules[index]? = some rule)
    (h : layer index < depth) (input : List Char) :
    evaluateRule grammar depth index input
      = shaped rule.name (evaluate (evaluateRule grammar depth) rule.body input) := by
  rw [evaluateRule_congr hlayers h (Nat.lt_succ_of_lt h), evaluateRule, hrule]

/-! ## The rules of patterns

The layers are written down as a list and checked by evaluation. There are far
fewer of them than the bound, which grows with the text and the grammar. -/

/-- The layers of the rules of patterns, in the order of the rules. -/
def standardLayers : List Nat :=
  [0, 0, 1, 0, 1, 2, 1, 2, 0, 1, 0, 2, 2, 1, 0, 2, 3, 2, 3, 2, 3, 0]

def standardLayer (index : Nat) : Nat :=
  standardLayers.getD index 0

theorem layered_standard : standard.Layered standardLayer := by
  unfold Grammar.Layered
  decide

/-- The depth to which patterns are evaluated is past every layer, whatever the
text. -/
theorem standardLayer_lt_depthBound (index : Nat) (input : List Char) :
    standardLayer index < depthBound standard input := by
  have hlayer : standardLayer index < 4 := by
    have hall : ∀ layer ∈ standardLayers, layer < 4 := by decide
    rw [standardLayer, List.getD_eq_getElem?_getD]
    cases hfound : standardLayers[index]? with
    | none => decide
    | some layer => exact hall layer (List.mem_of_getElem? hfound)
  have hrules : standard.rules.length = 22 := rfl
  rw [depthBound, hrules]
  omega

end Pattern

end Worksheet
