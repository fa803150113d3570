import Worksheet.Proofs.Number.Exact
import Worksheet.Proofs.Pattern.LeafKinds
import Worksheet.Format.Formatter

/-!
# The best fraction is found

The fraction format looks for the best fraction `p / q` of a number below one
with `q` up to a bound of at most nine digits. It expands the number into a
continued fraction and takes, at the end, the nearer of the last convergent and
the largest semiconvergent that still fits (`FractionSection.best`). The
definition that runs bounds its rounds and counts in `ℕ`. What has to be shown
is that neither matters: the rounds never run out, every count fits in its bits,
nothing is taken from less and nothing is divided by zero.

The search is therefore given once more as a relation, without a limit on the
rounds and with every count checked. `Convergents.round?` is one round,
`Expands` runs rounds up to one that is the last, and `Finds` is the whole
search. `finds_best` says that the search comes to an end, and that its end is
what `best` gives.

Of doubles only this much is used: what is left of a number below one is its
fractional part exactly (`represents_left`), and its reciprocal is at least one
(`represents_reciprocal`). So from the second round on every term is positive.
The invariant is `Convergents.Sound`: the last denominator is positive and
within the bound, and no numerator is above its denominator but for those at the
start. Each round is progress (`Convergents.progress`), which grows up to the
bound, and this is why the rounds of `expand` suffice (`expands_expand`).

Beside a whole part the fraction that is written is less than one, since a
fraction of one is carried over (`parts?_eq_some`). `best_and_parts` puts both
together.
-/

namespace Worksheet.Format

open Number Pattern

namespace FractionSection

variable {value rest : Float} {bound term : ℕ} {c c' last last' : Convergents} {x y : ℚ}

/-! ## Counting without overflow

`Convergents.round?`, `Convergents.nearest?` and `Finds` are the search as
it would be made with counts of 64 bits: each operation that could fail is
followed by a check, and without an answer the relation does not hold. That
`Finds` holds of `best` is therefore more than that `best` is a total
function. -/

theorem count?_eq_some {n : ℕ} (h : n < countLimit) : count? n = some n :=
  if_pos h

/-- How far a fraction is from a number. It is `fractionError` where that is
defined, and `none` for a denominator of zero, so that a search that divides by
zero finds nothing. -/
def fractionError? (value : Float) (numerator denominator : ℕ) : Option Float :=
  if denominator = 0 then none else some (fractionError value numerator denominator)

/-- What comes of a round of an expansion: either it was the last, or there is
another number to expand. -/
inductive Round where
  /-- It was the last one, after which these are the convergents. -/
  | stop (last : Convergents)
  /-- The expansion goes on with the reciprocal of what was left. -/
  | next (rest : Float) (c : Convergents)

/-- **A round of an expansion**, if all of its sums and products are counts and
nothing is divided by zero. Each `count?` stands for an operation on 64 bits
that would overflow, and the last line for the reciprocal of zero. -/
def Convergents.round? (c : Convergents) (value : Float) (bound : ℕ) (rest : Float) :
    Option Round := do
  let _ ← count? (bound + 1)
  let term := termOf bound rest
  let product ← count? (term * c.q₁)
  let q ← count? (c.q₀ + product)
  if bound < q then return .stop c
  let product ← count? (term * c.p₁)
  let p ← count? (c.p₀ + product)
  let left := rest - Number.ofInt (Number.floorInt rest)
  let error ← fractionError? value p q
  if left < 1e-12 || error < value * 1e-12 then return .stop ⟨c.p₁, c.q₁, p, q⟩
  if left == 0 then none else return .next (1 / left) ⟨c.p₁, c.q₁, p, q⟩

/-- **An expansion runs to its end.** Round after round is made by
`Convergents.round?`, up to one that is the last. There is no limit on their
number: an endless expansion is related to nothing. -/
inductive Expands (value : Float) (bound : ℕ) : Float → Convergents → Convergents → Prop
  | stop {rest : Float} {c last : Convergents}
      (h : c.round? value bound rest = some (.stop last)) : Expands value bound rest c last
  | next {rest rest' : Float} {c c' last : Convergents}
      (h : c.round? value bound rest = some (.next rest' c'))
      (hmore : Expands value bound rest' c' last) : Expands value bound rest c last

theorem Expands.unique (h : Expands value bound rest c last)
    (h' : Expands value bound rest c last') : last = last' := by
  induction h with
  | stop h =>
    cases h' with
    | stop h' => exact Round.stop.inj (Option.some.inj (h.symm.trans h'))
    | next h' => cases h.symm.trans h'
  | next h hmore ih =>
    cases h' with
    | stop h' => cases h.symm.trans h'
    | next h' hmore' =>
      obtain ⟨rfl, rfl⟩ := Round.next.inj (Option.some.inj (h.symm.trans h'))
      exact ih hmore'

/-- **The nearer one** of the last convergent and the largest semiconvergent
after it. As in `Convergents.round?` there is none if a difference would be
negative, a product or a sum too large, or a denominator zero. -/
def Convergents.nearest? (c : Convergents) (value : Float) (bound : ℕ) : Option (ℕ × ℕ) := do
  let room ← if c.q₀ ≤ bound then some (bound - c.q₀) else none
  let k ← if c.q₁ = 0 then none else some (room / c.q₁)
  let product ← count? (k * c.p₁)
  let p ← count? (c.p₀ + product)
  let product ← count? (k * c.q₁)
  let q ← count? (c.q₀ + product)
  let semiError ← fractionError? value p q
  let error ← fractionError? value c.p₁ c.q₁
  return if error ≤ semiError then (c.p₁, c.q₁) else (p, q)

/-- The convergents before the first round, with the denominators `1` and `0`.
They are the only ones with a numerator above its denominator. -/
def Convergents.start : Convergents :=
  ⟨0, 1, 1, 0⟩

/-- **The search for the best fraction** comes to its end, with a fraction. A
number that is not positive has the fraction `0 / 1` without any search. -/
inductive Finds (value : Float) (bound : ℕ) : ℕ × ℕ → Prop
  | zero (h : value ≤ 0) : Finds value bound (0, 1)
  | nearest {last : Convergents} {found : ℕ × ℕ} (h : ¬value ≤ 0)
      (hexpands : Expands value (max bound 1) value .start last)
      (hnearest : last.nearest? value (max bound 1) = some found) : Finds value bound found

/-- The search finds one fraction, since `round?` and `nearest?` are functions
and an expansion has one end (`Expands.unique`). -/
theorem Finds.unique {found found' : ℕ × ℕ} (h : Finds value bound found)
    (h' : Finds value bound found') : found = found' := by
  cases h with
  | zero hzero =>
    cases h' with
    | zero => rfl
    | nearest h => exact absurd hzero h
  | nearest h hexpands hnearest =>
    cases h' with
    | zero hzero => exact absurd hzero h
    | nearest _ hexpands' hnearest' =>
      obtain rfl := hexpands.unique hexpands'
      exact Option.some.inj (hnearest.symm.trans hnearest')

/-! ## What doubles do

Three facts on floating-point numbers, each with the exact number that a double
stands for (`Represents`). The rest of the module does not look at doubles
again. -/

theorem termOf_eq (h : Represents rest y) : termOf bound rest = min ⌊y⌋₊ (bound + 1) := by
  rw [termOf, (isNaN_isInf_of_isFinite h.isFinite).1, h.isSigned, ← h.whole_eq]
  rfl

/-- **What is left of a number** is its fractional part, exactly: doubles with
the same exponent or a smaller one lose nothing when the whole part is taken
off. -/
theorem represents_left (h : Represents rest y) (hlt : y < 2 ^ 53) :
    Represents (rest - Number.ofInt (Number.floorInt rest)) (y - ⌊y⌋₊) := by
  have hfloor : ⌊y⌋₊ < 2 ^ 53 := (Nat.floor_lt h.nonneg).2 (by exact_mod_cast hlt)
  rw [h.floorInt_eq, ofInt_natCast]
  exact (h.sub (represents_ofNat hfloor) (Nat.floor_le h.nonneg)).represents_of_represents h.fract

/-- The tolerance `1e-12` is a double of at least `2 ^ (-40)`. Its exact value
does not matter: all that is needed is that a reciprocal of more than the
tolerance stays below `2 ^ 40`. -/
theorem represents_tolerance : ∃ z, Represents 1e-12 z ∧ 2 ^ (-40 : ℤ) ≤ z := by
  have hmagnitude : magnitude 1e-12 = ⟨4951760157141521, -92⟩ := by decide +kernel
  refine ⟨_, ⟨by decide +kernel, by decide +kernel, rfl⟩, ?_⟩
  rw [hmagnitude, Binary.toRat]
  norm_num [zpow_neg]

/-- **The reciprocal of what is left** is at least one, and not too large. The
upper bound is needed to take the fractional part of the reciprocal exactly in
the next round (`represents_left`). -/
theorem represents_reciprocal {left : Float} (h : Represents left y) (hlt : y < 1)
    (hleft : ¬left < 1e-12) :
    (left == 0) = false ∧ ∃ z, Represents (1 / left) z ∧ 1 ≤ z ∧ z ≤ 2 ^ 40 := by
  obtain ⟨tolerance, htolerance, hlarge⟩ := represents_tolerance
  have hy : 2 ^ (-40 : ℤ) ≤ y := hlarge.trans (not_lt.1 ((h.lt_iff htolerance).not.1 hleft))
  have hpos : 0 < y := lt_of_lt_of_le (by positivity) hy
  have hzero : (left == 0) = false := by
    rw [Bool.eq_false_iff, Ne, beq_iff_compare, h.compare_eq .zero, Option.some.injEq,
      compare_eq_iff_eq]
    exact hpos.ne'
  have hbound : 1 / y ≤ 2 ^ 40 := by
    rw [div_le_iff₀ hpos]
    calc (1 : ℚ) = 2 ^ 40 * 2 ^ (-40 : ℤ) := by norm_num
      _ ≤ 2 ^ 40 * y := by gcongr
  have hrounds := represents_one.div h hpos
  have hpower : Represents (Float.ofNat (2 ^ 40)) (2 ^ 40 : ℕ) := represents_ofNat (by decide)
  obtain ⟨z, hz⟩ := hrounds.exists_represents
    (lt_of_le_of_lt hbound (by exact_mod_cast hpower.lt_overflow))
  refine ⟨hzero, z, hz, hrounds.le_of_ge hz represents_one ?_, ?_⟩
  · rw [le_div_iff₀ hpos, one_mul]
    exact hlt.le
  · exact_mod_cast hrounds.le_of_le hz hpower (by exact_mod_cast hbound)

/-! ## The convergents

The invariant and the measure of the loop. `Sound` is kept by a round,
`progress` grows by it and is bounded, and a round that keeps within the bound
overflows nowhere. The first round is apart from the others, as its term is
zero. -/

namespace Convergents

/-- **What holds of the convergents** after the first round. The round keeps
this up (`Sound.next`), and it is all that is needed to see that the next one
can be made (`round?_eq`). -/
structure Sound (c : Convergents) (bound : ℕ) : Prop where
  /-- The last denominator is not zero, -/
  pos : 0 < c.q₁
  /-- not below its numerator, -/
  le : c.p₁ ≤ c.q₁
  /-- and within the bound. -/
  le_bound : c.q₁ ≤ bound
  /-- So is the one before it, except that it is zero after the first round. -/
  before : c = ⟨1, 0, 0, 1⟩ ∨ 0 < c.q₀ ∧ c.p₀ ≤ c.q₀ ∧ c.q₀ ≤ bound

/-- What a round adds to: the last denominator, and whether there is one before
it. The second summand is needed for the second round, which can leave the last
denominator as it is. -/
def progress (c : Convergents) : ℕ :=
  c.q₁ + min c.q₀ 1

namespace Sound

variable (h : c.Sound bound)

include h

theorem one_le_bound : 1 ≤ bound :=
  Nat.le_trans h.pos h.le_bound

theorem within : c.p₀ ≤ bound ∧ c.q₀ ≤ bound ∧ c.p₁ ≤ bound := by
  have hbound := h.one_le_bound
  rcases h.before with rfl | ⟨-, hle, hwithin⟩
  · exact ⟨hbound, Nat.zero_le _, Nat.zero_le _⟩
  · exact ⟨hle.trans hwithin, hwithin, h.le.trans h.le_bound⟩

/-- **One more term keeps `Sound` up, and is progress**, as long as the term is
positive and the new denominator is within the bound. Both conditions are what
the round checks before it goes on. -/
theorem next (hterm : 0 < term) (hle : c.q₀ + term * c.q₁ ≤ bound) :
    (c.next term).Sound bound ∧ c.progress < (c.next term).progress := by
  have hq : c.q₁ ≤ term * c.q₁ := Nat.le_mul_of_pos_left _ hterm
  have hp : term * c.p₁ ≤ term * c.q₁ := Nat.mul_le_mul_left _ h.le
  have hpos := h.pos
  refine ⟨⟨?_, ?_, hle, .inr ⟨h.pos, h.le, h.le_bound⟩⟩, ?_⟩
  · show 0 < c.q₀ + term * c.q₁
    omega
  · show c.p₀ + term * c.p₁ ≤ c.q₀ + term * c.q₁
    obtain rfl | ⟨-, hbefore, -⟩ := h.before
    · dsimp only
      omega
    · omega
  · show c.q₁ + min c.q₀ 1 < c.q₀ + term * c.q₁ + min c.q₁ 1
    omega

end Sound

theorem mul_add_lt {k p q : ℕ} (hbound : bound ≤ 999999999) (hk : k ≤ bound + 1) (hp : p ≤ bound)
    (hq : q ≤ bound) : k * p < countLimit ∧ q + k * p < countLimit := by
  have hproduct : k * p ≤ 1000000000 * 999999999 := Nat.mul_le_mul (by omega) (by omega)
  unfold countLimit
  omega

/-- **A round is made** when the parts of the convergents are within the bound:
no `count?` fails, and what is left is the case distinction of `expand`. Only
the reciprocal of zero is still to be ruled out, which is left to
`represents_reciprocal`. -/
theorem round?_eq (hbound : bound ≤ 999999999)
    (hwithin : c.p₀ ≤ bound ∧ c.q₀ ≤ bound ∧ c.p₁ ≤ bound) (hq : c.q₁ ≤ bound)
    (hterm : termOf bound rest ≤ bound + 1) (hpos : 0 < c.q₀ + termOf bound rest * c.q₁) :
    c.round? value bound rest
      = if bound < c.q₀ + termOf bound rest * c.q₁ then some (.stop c)
        else if rest - Number.ofInt (Number.floorInt rest) < 1e-12 ||
            fractionError value (c.next (termOf bound rest)).p₁ (c.next (termOf bound rest)).q₁
              < value * 1e-12 then some (.stop (c.next (termOf bound rest)))
        else if rest - Number.ofInt (Number.floorInt rest) == 0 then none
        else some (.next (1 / (rest - Number.ofInt (Number.floorInt rest)))
          (c.next (termOf bound rest))) := by
  obtain ⟨hp₀, hq₀, hp₁⟩ := hwithin
  have hqs := mul_add_lt hbound hterm hq hq₀
  have hps := mul_add_lt hbound hterm hp₁ hp₀
  have hlimit : bound + 1 < countLimit := by
    unfold countLimit
    omega
  unfold round?
  simp only [count?_eq_some hlimit, count?_eq_some hqs.1, count?_eq_some hqs.2,
    count?_eq_some hps.1, count?_eq_some hps.2, fractionError?, if_neg hpos.ne',
    Option.bind_eq_bind, Option.bind_some, Option.pure_def, next]
  rfl

end Convergents

/-- **One round and what comes after it** run to the end that `expand` has with
one more round, where the convergents are still sound. The two inductions, over
the first round and over the later ones, differ in what they know of the term,
and both go through this. -/
theorem expands_succ {rounds : ℕ} (hbound : bound ≤ 999999999)
    (hwithin : c.p₀ ≤ bound ∧ c.q₀ ≤ bound ∧ c.p₁ ≤ bound) (hq : c.q₁ ≤ bound)
    (hterm : termOf bound rest ≤ bound + 1) (hpos : 0 < c.q₀ + termOf bound rest * c.q₁)
    (hstop : bound < c.q₀ + termOf bound rest * c.q₁ → c.Sound bound)
    (hnext : c.q₀ + termOf bound rest * c.q₁ ≤ bound → (c.next (termOf bound rest)).Sound bound)
    (hmore : c.q₀ + termOf bound rest * c.q₁ ≤ bound →
      ∀ left, left = rest - Number.ofInt (Number.floorInt rest) → ¬left < 1e-12 →
        (left == 0) = false ∧
          Expands value bound (1 / left) (c.next (termOf bound rest))
            (expand value bound rounds (1 / left) (c.next (termOf bound rest))) ∧
          (expand value bound rounds (1 / left) (c.next (termOf bound rest))).Sound bound) :
    Expands value bound rest c (expand value bound (rounds + 1) rest c) ∧
      (expand value bound (rounds + 1) rest c).Sound bound := by
  have hround := @Convergents.round?_eq value rest bound c hbound hwithin hq hterm hpos
  obtain ⟨left, hleft⟩ : ∃ left, left = rest - Number.ofInt (Number.floorInt rest) := ⟨_, rfl⟩
  rw [← hleft] at hround
  rw [expand]
  dsimp only
  rw [← hleft]
  by_cases hlarge : bound < c.q₀ + termOf bound rest * c.q₁
  · rw [if_pos hlarge] at hround ⊢
    exact ⟨.stop hround, hstop hlarge⟩
  rw [if_neg hlarge] at hround ⊢
  split
  · rename_i hdone
    rw [if_pos hdone] at hround
    exact ⟨.stop hround, hnext (not_lt.1 hlarge)⟩
  · rename_i hdone
    rw [if_neg hdone] at hround
    have hlast : ¬left < 1e-12 := fun hlt => hdone (by rw [decide_eq_true hlt, Bool.true_or])
    obtain ⟨hzero, hexpands, hsound⟩ := hmore (not_lt.1 hlarge) left hleft hlast
    rw [hzero, if_neg Bool.false_ne_true] at hround
    exact ⟨.next hround hexpands, hsound⟩

theorem termOf_le (bound : ℕ) (h : Represents rest y) : termOf bound rest ≤ bound + 1 := by
  rw [termOf_eq h]
  exact Nat.min_le_right _ _

/-- **From the second round on** the expansion runs to its end, which is that of
`expand` if it has rounds for every denominator that is left. The induction is
on the rounds of `expand`; `progress` is at most `bound + 1`, so it never ends
for want of rounds. -/
theorem expands_expand (hbound : bound ≤ 999999999) {rounds : ℕ} (hc : c.Sound bound)
    (hrest : Represents rest y) (hone : 1 ≤ y) (hlarge : y ≤ 2 ^ 40)
    (hrounds : bound + 1 < rounds + c.progress) :
    Expands value bound rest c (expand value bound rounds rest c) ∧
      (expand value bound rounds rest c).Sound bound := by
  induction rounds generalizing rest c y with
  | zero =>
    have hle := hc.le_bound
    unfold Convergents.progress at hrounds
    omega
  | succ rounds ih =>
    have hpos : 0 < termOf bound rest := by
      rw [termOf_eq hrest]
      exact lt_min (Nat.floor_pos.2 hone) (Nat.succ_pos _)
    have hq : 0 < termOf bound rest * c.q₁ := Nat.mul_pos hpos hc.pos
    refine expands_succ hbound hc.within hc.le_bound (termOf_le bound hrest) (by omega)
      (fun _ => hc) (fun hle => (hc.next hpos hle).1) fun hle left hleft hlast => ?_
    obtain ⟨hsound, hprogress⟩ := hc.next hpos hle
    have hrepresents := represents_left hrest (hlarge.trans_lt (by norm_num))
    rw [← hleft] at hrepresents
    obtain ⟨hzero, z, hz, hzone, hzlarge⟩ := represents_reciprocal hrepresents
      (by have := Nat.lt_floor_add_one y; linarith) hlast
    exact ⟨hzero, ih hsound hz hzone hzlarge (by omega)⟩

/-- **The whole expansion** of a number below one runs to its end within
`bound + 2` rounds. Its first term is zero, as the number is below one, and only
then are the convergents sound. -/
theorem expands_start (hone : 1 ≤ bound) (hbound : bound ≤ 999999999) (hvalue : Represents value x)
    (hlt : x < 1) :
    Expands value bound value .start (expand value bound (bound + 2) value .start) ∧
      (expand value bound (bound + 2) value .start).Sound bound := by
  -- the first term is zero, and all of the number is left
  have hfloor : ⌊x⌋₊ = 0 := Nat.floor_eq_zero.2 hlt
  have hterm : termOf bound value = 0 := by
    rw [termOf_eq hvalue, hfloor, Nat.zero_min]
  have hfirst : Convergents.start.next (termOf bound value) = ⟨1, 0, 0, 1⟩ := by
    rw [hterm]
    rfl
  have hsound : Convergents.Sound ⟨1, 0, 0, 1⟩ bound := ⟨one_pos, zero_le_one, hone, .inl rfl⟩
  have hq : Convergents.start.q₀ + termOf bound value * Convergents.start.q₁ = 1 := by
    rw [hterm]
    rfl
  refine expands_succ hbound ⟨Nat.zero_le _, hone, hone⟩ (Nat.zero_le _) (termOf_le bound hvalue)
    (by omega) (fun hlarge => absurd hlarge (by omega)) (fun _ => hfirst ▸ hsound)
    fun _ left hleft hlast => ?_
  have hrepresents := represents_left hvalue (hlt.trans (by norm_num))
  rw [← hleft, hfloor, Nat.cast_zero, sub_zero] at hrepresents
  obtain ⟨hzero, z, hz, hzone, hzlarge⟩ := represents_reciprocal hrepresents hlt hlast
  rw [hfirst]
  exact ⟨hzero, expands_expand hbound hsound hz hzone hzlarge (by
    show bound + 1 < bound + 1 + (1 + min 0 1)
    omega)⟩

/-- **The nearer fraction is found**, and it is at most one with a denominator
within the bound. The largest `k` with `q₀ + k * q₁` within the bound keeps the
semiconvergent within it, too. -/
theorem nearest?_of_sound (hbound : bound ≤ 999999999) (h : c.Sound bound) :
    ∃ p q, c.nearest? value bound = some (p, q) ∧ 1 ≤ q ∧ q ≤ bound ∧ p ≤ q ∧
      (p, q) = if fractionError value c.p₁ c.q₁
          ≤ fractionError value (c.p₀ + (bound - c.q₀) / c.q₁ * c.p₁)
            (c.q₀ + (bound - c.q₀) / c.q₁ * c.q₁) then (c.p₁, c.q₁)
        else (c.p₀ + (bound - c.q₀) / c.q₁ * c.p₁, c.q₀ + (bound - c.q₀) / c.q₁ * c.q₁) := by
  obtain ⟨hp₀, hq₀, hp₁⟩ := h.within
  -- the largest step along the last convergent that keeps the denominator
  -- within the bound
  obtain ⟨k, hk⟩ : ∃ k, k = (bound - c.q₀) / c.q₁ := ⟨_, rfl⟩
  have hkle : k ≤ bound + 1 := by
    rw [hk]
    exact (Nat.div_le_self _ _).trans (by omega)
  have hroom : k * c.q₁ ≤ bound - c.q₀ := hk ▸ Nat.div_mul_le_self _ _
  have hps := Convergents.mul_add_lt hbound hkle hp₁ hp₀
  have hqs := Convergents.mul_add_lt hbound hkle h.le_bound hq₀
  have hproducts : k * c.p₁ ≤ k * c.q₁ := Nat.mul_le_mul_left _ h.le
  -- before the first step the earlier convergent is one over zero, which the
  -- last one makes up for
  have hsemi : 0 < c.q₀ + k * c.q₁ ∧ c.p₀ + k * c.p₁ ≤ c.q₀ + k * c.q₁ := by
    rcases h.before with rfl | ⟨hpos, hle, -⟩
    · have hbound := h.one_le_bound
      dsimp only at hk ⊢
      omega
    · omega
  have hpos := h.pos
  have hnearest : c.nearest? value bound
      = some (if fractionError value c.p₁ c.q₁
            ≤ fractionError value (c.p₀ + k * c.p₁) (c.q₀ + k * c.q₁) then (c.p₁, c.q₁)
          else (c.p₀ + k * c.p₁, c.q₀ + k * c.q₁)) := by
    unfold Convergents.nearest?
    simp only [if_pos hq₀, if_neg hpos.ne', ← hk, count?_eq_some hps.1, count?_eq_some hps.2,
      count?_eq_some hqs.1, count?_eq_some hqs.2, fractionError?, if_neg hsemi.1.ne',
      Option.bind_eq_bind, Option.bind_some, Option.pure_def]
  rw [← hk, hnearest]
  split
  · exact ⟨_, _, rfl, hpos, h.le_bound, h.le, rfl⟩
  · exact ⟨_, _, rfl, hsemi.1, by omega, hsemi.2, rfl⟩

/-- **The best fraction** of a number from zero up to one, which may be the
negative zero: the search comes to its end with `best`, and what it finds is at
most one with a denominator within the bound. -/
theorem finds_best (hnonneg : 0 ≤ value) (hlt : value < 1) (hone : 1 ≤ bound)
    (hbound : bound ≤ 999999999) :
    Finds value bound (best value bound) ∧ 1 ≤ (best value bound).2 ∧
      (best value bound).2 ≤ bound ∧ (best value bound).1 ≤ (best value bound).2 := by
  by_cases hzero : value ≤ 0
  · have hbest : best value bound = (0, 1) := if_pos hzero
    rw [hbest]
    exact ⟨.zero hzero, le_rfl, hone, zero_le_one⟩
  obtain rfl | ⟨x, hvalue⟩ := eq_neg_zero_or_represents (isFinite_of_lt_one hnonneg hlt) hnonneg
  · exact absurd (by decide) hzero
  obtain ⟨hexpands, hsound⟩ :=
    expands_start hone hbound hvalue ((hvalue.lt_iff represents_one).1 hlt)
  obtain ⟨p, q, hnearest, hq, hle, hpq, hfound⟩ := @nearest?_of_sound value bound _ hbound hsound
  have hmax : max bound 1 = bound := max_eq_left hone
  have hbest : best value bound = (p, q) := by
    rw [hfound, best, if_neg hzero, hmax]
    rfl
  rw [hbest]
  exact ⟨.nearest hzero (hmax.symm ▸ hexpands) (hmax.symm ▸ hnearest), hq, hle, hpq⟩

/-! ## The parts of a number

The search is used for the fractional part only. What is said of the parts
beside a whole part, and of a whole part that is brought into the fraction, is
arithmetic on what the search finds. -/

variable {layout : FractionSection} {size : Float}

theorem represents_fract (hfinite : size.isFinite = true) (hnonneg : 0 ≤ size) :
    ∃ x, Represents (Number.fract size) x ∧ x < 1 := by
  obtain rfl | ⟨x, hsize⟩ := eq_neg_zero_or_represents hfinite hnonneg
  · refine ⟨0, ?_, zero_lt_one⟩
    rw [show Number.fract (-0) = 0 by decide +kernel]
    exact .zero
  · refine ⟨_, hsize.fract, ?_⟩
    have := Nat.lt_floor_add_one x
    linarith

/-- **A part of a given denominator** is rounded to at most that denominator:
the product is below the denominator before it is rounded, and the denominator
is a double. -/
theorem roundNat_mul_le {part : Float} (h : Represents part x) (hlt : x < 1) {denominator : ℕ}
    (hdenominator : denominator < 2 ^ 32) :
    Number.roundNat (part * Float.ofNat denominator) ≤ denominator := by
  have hcount : Represents (Float.ofNat denominator) denominator :=
    represents_ofNat (hdenominator.trans (by decide))
  have hrounds := h.mul hcount
  have hle : x * denominator ≤ denominator := mul_le_of_le_one_left hcount.nonneg hlt.le
  obtain ⟨z, hz⟩ := hrounds.exists_represents (hle.trans_lt hcount.lt_overflow)
  exact hz.roundNat_le (hrounds.le_of_le hz hcount hle)

theorem maxDenominator_bounds (layout : FractionSection) :
    1 ≤ layout.maxDenominator ∧ layout.maxDenominator ≤ 999999999 := by
  have hlow : 10 ^ 1 ≤ 10 ^ max 1 (min 9 layout.denominator.length) :=
    Nat.pow_le_pow_right (by decide) (by omega)
  have hhigh : 10 ^ max 1 (min 9 layout.denominator.length) ≤ 10 ^ 9 :=
    Nat.pow_le_pow_right (by decide) (by omega)
  unfold maxDenominator
  omega

/-- The fraction that a number has beyond its whole part: the nearest one with
the denominator that the pattern gives, and otherwise the best one within the
digits it has places for. -/
def fractionOf (layout : FractionSection) (part : Float) : ℕ × ℕ :=
  match layout.fixed with
  | some fixed => (Number.roundNat (part * Float.ofNat fixed), fixed)
  | none => best part layout.maxDenominator

theorem fractionOf_le (hfixed : ∀ fixed ∈ layout.fixed, 1 ≤ fixed ∧ fixed < 2 ^ 32) {part : Float}
    (h : Represents part x) (hlt : x < 1) :
    1 ≤ (layout.fractionOf part).2 ∧ (layout.fractionOf part).1 ≤ (layout.fractionOf part).2 := by
  unfold fractionOf
  cases hgiven : layout.fixed with
  | some fixed =>
    obtain ⟨hone, hfew⟩ := hfixed fixed hgiven
    exact ⟨hone, roundNat_mul_le h hlt hfew⟩
  | none =>
    obtain ⟨hone, hbound⟩ := layout.maxDenominator_bounds
    obtain ⟨-, hpos, -, hle⟩ := finds_best ((Represents.zero.le_iff h).2 h.nonneg)
      ((h.lt_iff represents_one).2 hlt) hone hbound
    exact ⟨hpos, hle⟩

/-- A fraction of one carried over to the whole part, as long as it can be
counted. It is the only way in which a section comes to a numerator that is not
below its denominator. -/
def carry? (whole : ℕ) (fraction : ℕ × ℕ) : Option (ℕ × ℕ) :=
  if fraction.1 = fraction.2 then (count? (whole + 1)).map (·, 0) else some (whole, fraction.1)

/-- A whole part and a numerator, brought together where there is no place for a
whole part, as long as they can be counted. The fraction is then an improper
one. -/
def join? (layout : FractionSection) (denominator : ℕ) (part : ℕ × ℕ) : Option (ℕ × ℕ × ℕ) := do
  if layout.whole.isEmpty then
    let scaled ← count? (part.1 * denominator)
    let numerator ← count? (scaled + part.2)
    return (0, numerator, denominator)
  else return (part.1, part.2, denominator)

theorem parts?_eq (layout : FractionSection) (size : Float) :
    layout.parts? size = if Float.ofNat (countLimit - 1) ≤ size then none
      else (carry? (Number.magnitude size).whole (layout.fractionOf (Number.fract size))).bind
        (layout.join? (layout.fractionOf (Number.fract size)).2) := by
  unfold carry?
  rw [apply_ite (Option.bind · _)]
  rfl

variable {whole whole' numerator denominator : ℕ}

/-- **A fraction of one is carried**, so that there is less than one beside a
whole part. -/
theorem carry?_eq_some {fraction : ℕ × ℕ} (hle : fraction.1 ≤ fraction.2) (hpos : 1 ≤ fraction.2)
    (h : carry? whole fraction = some (whole', numerator)) : numerator < fraction.2 := by
  unfold carry? at h
  split at h
  · obtain ⟨_, -, heq⟩ := Option.map_eq_some_iff.1 h
    obtain ⟨-, rfl⟩ := Prod.mk.inj heq
    exact hpos
  · rename_i hne
    obtain ⟨-, rfl⟩ := Prod.mk.inj (Option.some.inj h)
    exact lt_of_le_of_ne hle hne

theorem join?_eq_some {part : ℕ × ℕ} {given : ℕ}
    (h : layout.join? given part = some (whole, numerator, denominator)) :
    denominator = given ∧ (layout.whole ≠ [] → numerator = part.2) := by
  unfold join? at h
  split at h
  · rename_i hempty
    obtain ⟨_, -, h⟩ := Option.bind_eq_some_iff.1 h
    obtain ⟨_, -, h⟩ := Option.bind_eq_some_iff.1 h
    obtain ⟨-, heq⟩ := Prod.mk.inj (Option.some.inj h)
    exact ⟨(Prod.mk.inj heq).2.symm, fun hne => absurd (List.isEmpty_iff.1 hempty) hne⟩
  · obtain ⟨-, heq⟩ := Prod.mk.inj (Option.some.inj h)
    obtain ⟨rfl, rfl⟩ := Prod.mk.inj heq
    exact ⟨rfl, fun _ => rfl⟩

/-- **What a number is parted into** has a denominator, and beside a whole part
a fraction of less than one. The hypothesis is on a denominator that the pattern
gives, which is a count of 32 bits (`fixed_of_readPart`). -/
theorem parts?_eq_some (hfixed : ∀ fixed ∈ layout.fixed, 1 ≤ fixed ∧ fixed < 2 ^ 32)
    (hfinite : size.isFinite = true) (hnonneg : 0 ≤ size)
    (h : layout.parts? size = some (whole, numerator, denominator)) :
    1 ≤ denominator ∧ (layout.whole ≠ [] → numerator < denominator) := by
  obtain ⟨x, hpart, hlt⟩ := represents_fract hfinite hnonneg
  obtain ⟨hpos, hle⟩ := fractionOf_le hfixed hpart hlt
  rw [parts?_eq] at h
  obtain ⟨-, h⟩ := Option.ite_none_left_eq_some.1 h
  obtain ⟨part, hcarry, hjoin⟩ := Option.bind_eq_some_iff.1 h
  obtain ⟨rfl, hnumerator⟩ := join?_eq_some hjoin
  exact ⟨hpos, fun hwhole => hnumerator hwhole ▸ carry?_eq_some hle hpos hcarry⟩

/-! ## The sections that are read

A denominator can also be given by the pattern. No pattern gives zero, so there
is nothing to assume of a section that is read. -/

theorem fixed_push (progress : Progress) (piece : FractionPiece) :
    (progress.push piece).layout.fixed = progress.layout.fixed := by
  unfold Progress.push
  dsimp only
  split <;> rfl

theorem fixed_pushDigit (progress : Progress) (placeholder : Placeholder) :
    (progress.pushDigit placeholder).layout.fixed = progress.layout.fixed := by
  unfold Progress.pushDigit
  dsimp only
  split <;> rfl

theorem fixed_leaf (progress : Progress) (kind : LeafKind) (text : List Char) :
    (progress.leaf kind text).layout.fixed = progress.layout.fixed ∨
      ∃ fixed, kind = .fractionDenominator fixed ∧
        (progress.leaf kind text).layout.fixed = some fixed := by
  cases kind with
  | fractionDenominator fixed => exact .inr ⟨fixed, rfl, rfl⟩
  | digit | digitZero | digitSpace => exact .inl (fixed_pushDigit progress _)
  | currency | underscore | quotedText | textLiteral | escape => exact .inl (fixed_push progress _)
  | whitespace =>
    left
    show (if _ then _ else _ : Progress).layout.fixed = _
    split
    · rfl
    · exact fixed_push progress _
  | fractionSymbol =>
    left
    show (if _ then _ else if _ then _ else _ : Progress).layout.fixed = _
    split
    · exact fixed_push progress _
    · split <;> rfl
  | _ => exact .inl rfl

/-- A denominator that is given is given by a leaf: the compiler starts without
one, and each leaf leaves it as it is or gives its own. -/
theorem exists_of_mem_fixed {leaves : List Token} {fixed : ℕ}
    (h : fixed ∈ (ofLeaves leaves).fixed) :
    ∃ leaf ∈ leaves, leaf.leafKind? = some (.fractionDenominator fixed) := by
  have hfold : ∀ progress : Progress,
      fixed ∈ (leaves.foldl Progress.token progress).layout.fixed →
      fixed ∈ progress.layout.fixed ∨
        ∃ leaf ∈ leaves, leaf.leafKind? = some (.fractionDenominator fixed) := by
    clear h
    induction leaves with
    | nil => exact fun _ h => .inl h
    | cons token leaves ih =>
      intro progress h
      rcases ih _ h with h | ⟨leaf, hmem, hleaf⟩
      · cases token with
        | parent => exact .inl h
        | leaf kind text =>
          rcases fixed_leaf progress kind text with hsame | ⟨given, rfl, hgiven⟩
          · exact .inl (hsame ▸ h)
          · obtain rfl := Option.some.inj (hgiven.symm.trans h)
            exact .inr ⟨_, List.mem_cons_self, rfl⟩
      · exact .inr ⟨leaf, List.mem_cons_of_mem _ hmem, hleaf⟩
  exact (hfold _ h).resolve_left nofun

/-- **A denominator that is read** is not zero and has at most 32 bits, as the
scanner of denominators takes no other. Nothing is assumed of the text. -/
theorem fixed_of_readPart {text rest : List Char} {token : Token}
    (h : (readPart standard .fraction text).1 = some (token, rest)) :
    ∀ fixed ∈ (ofLeaves (contentLeaves token)).fixed, 1 ≤ fixed ∧ fixed < 2 ^ 32 := by
  intro fixed hfixed
  obtain ⟨leaf, hmem, hleaf⟩ := exists_of_mem_fixed hfixed
  obtain ⟨terminal, -, hreads⟩ :=
    reads_of_readPart h _ (mem_leafKinds_of_contentLeaves hmem hleaf)
  exact hreads.denominator

/-- **Fractions are found and written within their bounds.** The search for the
best fraction ends, counts without overflow and divides by nothing that is zero,
for every number from zero up to one and every bound of up to nine digits; and
every section that is read parts every number that is not negative, if at all,
into parts with a denominator, beside a whole part with less than one. -/
theorem best_and_parts :
    (∀ (value : Float) (bound : ℕ), 0 ≤ value → value < 1 → 1 ≤ bound → bound ≤ 999999999 →
      (∀ found, Finds value bound found ↔ found = best value bound) ∧
        1 ≤ (best value bound).2 ∧ (best value bound).2 ≤ bound ∧
        (best value bound).1 ≤ (best value bound).2) ∧
      ∀ (text rest : List Char) (token : Token),
        (readPart standard .fraction text).1 = some (token, rest) →
        ∀ size : Float, size.isFinite = true → 0 ≤ size →
        (ofLeaves (contentLeaves token)).parts? size = none ∨
          ∃ whole numerator denominator,
            (ofLeaves (contentLeaves token)).parts? size = some (whole, numerator, denominator) ∧
            1 ≤ denominator ∧
            ((ofLeaves (contentLeaves token)).whole ≠ [] → numerator < denominator) := by
  refine ⟨fun value bound hnonneg hlt hone hbound => ?_,
    fun text rest token hread size hfinite hnonneg => ?_⟩
  · obtain ⟨hfinds, hbounds⟩ := finds_best hnonneg hlt hone hbound
    exact ⟨fun found => ⟨fun h => h.unique hfinds, fun h => h ▸ hfinds⟩, hbounds⟩
  · cases hparts : (ofLeaves (contentLeaves token)).parts? size with
    | none => exact .inl rfl
    | some parts =>
      obtain ⟨whole, numerator, denominator⟩ := parts
      exact .inr ⟨whole, numerator, denominator, rfl,
        parts?_eq_some (fixed_of_readPart hread) hfinite hnonneg hparts⟩

/-- The number `1.25` has a fraction in quarters, and its fractional part is
best a quarter: both parts of `best_and_parts` at once. -/
theorem best_and_parts_quarter :
    Finds 0.25 9 (1, 4) ∧
      ∃ token, (readPart standard .fraction "# ?/4".toList).1 = some (token, []) ∧
        ∃ whole numerator denominator,
          (ofLeaves (contentLeaves token)).parts? 1.25 = some (whole, numerator, denominator) ∧
          1 ≤ denominator ∧ numerator < denominator := by
  have hbest : (1, 4) = best 0.25 9 := by decide +kernel
  have hread : ((readPart standard .fraction "# ?/4".toList).1.any fun found =>
      found.2.isEmpty && ((ofLeaves (contentLeaves found.1)).parts? 1.25).isSome
        && !(ofLeaves (contentLeaves found.1)).whole.isEmpty) = true := by
    decide +kernel
  obtain ⟨⟨token, rest⟩, htoken, hfound⟩ := (Option.any_eq_true ..).1 hread
  simp only [Bool.and_eq_true, List.isEmpty_iff, Bool.not_eq_true', List.isEmpty_eq_false_iff]
    at hfound
  obtain ⟨⟨rfl, hsome⟩, hwhole⟩ := hfound
  refine ⟨((best_and_parts.1 0.25 9 (by decide +kernel) (by decide +kernel) (by decide)
    (by decide)).1 _).2 hbest, token, htoken, ?_⟩
  rcases best_and_parts.2 _ _ token htoken 1.25 (by decide +kernel) (by decide +kernel) with
    hnone | ⟨whole, numerator, denominator, hparts, hpos, hless⟩
  · rw [hnone] at hsome
    cases hsome
  · exact ⟨whole, numerator, denominator, hparts, hpos, hless hwhole⟩

end FractionSection

end Worksheet.Format
