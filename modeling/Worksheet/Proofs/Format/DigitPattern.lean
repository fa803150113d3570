import Worksheet.Convert
import Worksheet.Proofs.Format.Compiling
import Worksheet.Proofs.Pattern.Digits

/-!
# Digits to write and digits to read

A pattern of plain digits has placeholders before a point and behind it,
separators among the first, and percent signs at the end (`DigitPattern`). It is
compiled twice, for writing numbers and for reading them, from the same leaves
one after the other. What has come of them is then alike (`alike_ofLeaves`): a
step for each piece, and the same grouping and scale.

So the pieces have to be worked out only once, for writing
(`DigitPattern.numberSection_eq`), and the steps are those of the pieces with
the last place of each run marked (`numberCandidate_plainLeaves`).
-/

namespace Worksheet.Format

open Pattern Read

/-- **A pattern of plain digits**: it begins with a placeholder, and the last
one before the point is a zero. So there is a digit before the point in
everything it prints, and the text it prints can be told from its signs. -/
structure DigitPattern where
  /-- The placeholders before the point and the separators among them. -/
  integer : List Char
  /-- How many separators there are behind the last placeholder before the
  point. -/
  scale : ℕ
  /-- The placeholders behind the point; there is no point without any. -/
  fraction : List Char
  /-- How many percent signs there are. -/
  percents : ℕ
  integer_mem : ∀ c ∈ integer, c = '#' ∨ c = '0' ∨ c = ','
  integer_head : integer.head? ≠ some ','
  integer_last : integer.getLast? = some '0'
  fraction_mem : ∀ c ∈ fraction, c = '#' ∨ c = '0'

/-! ## Compiled side by side -/

theorem legible_plainKind {same : NumberItem → Step → Prop} (c : Char) :
    Legible same (plainKind c) [c] := by
  unfold plainKind
  split_ifs
  · exact .placeholder rfl [c]
  · exact .placeholder rfl [c]
  · exact .groupSeparator [c]
  · exact .decimalPoint [c]
  · exact .percent [c]

/-- **A section for reading plain digits has the pieces of the one for writing
them**, with the last place of each run marked. Every plain leaf is legible
(`legible_plainKind`), so this is `alike_ofLeaves` with equality for the sense
of sameness. -/
theorem numberCandidate_plainLeaves (text : List Char) :
    NumberCandidate.ofLeaves (text.map plainLeaf)
      = ⟨NumberCandidate.markLast
            ((NumberSection.ofLeaves (text.map plainLeaf)).items.map NumberItem.step),
          (NumberSection.ofLeaves (text.map plainLeaf)).grouping,
          (NumberSection.ofLeaves (text.map plainLeaf)).scale⟩ := by
  have hleaves : ∀ leaf ∈ text.map plainLeaf, ∃ kind text, leaf = .leaf kind text ∧
      Legible (fun item step => item.step = step) kind text := by
    intro leaf hleaf
    obtain ⟨c, -, rfl⟩ := List.mem_map.1 hleaf
    exact ⟨plainKind c, [c], rfl, legible_plainKind c⟩
  obtain ⟨steps, hsteps, hcandidate⟩ := alike_ofLeaves (fun _ => rfl) hleaves
  rw [← List.forall₂_map_left_iff, List.forall₂_eq_eq_eq] at hsteps
  rw [hcandidate, hsteps]

/-! ## The pieces

A pattern of plain digits is compiled run by run. What the compiler holds
between two leaves is a list of pieces, a zone and a number of separators that
wait, and the lemmas say what a whole run does to these. -/

/-- The placeholders of a run, without its separators, which are no places. -/
def places (run : List Char) : List Placeholder :=
  (run.filter (· ≠ ',')).map fun c => if c = '0' then .zero else .optional

namespace DigitPattern

variable (p : DigitPattern)

def decimals : List Char :=
  if p.fraction = [] then [] else '.' :: p.fraction

/-- What is written for a pattern. -/
def text : List Char :=
  p.integer ++ (List.replicate p.scale ',' ++ (p.decimals ++ List.replicate p.percents '%'))

def decimalItems : List NumberItem :=
  if p.fraction = [] then [] else .decimalPoint :: (places p.fraction).map (.digit .fraction)

/-- The pieces of a pattern in order: the places before the point, the point
with those behind it, and the percent signs. -/
def items : List NumberItem :=
  (places p.integer).map (.digit .integer)
    ++ (p.decimalItems ++ List.replicate p.percents .percent)

end DigitPattern

variable {items : List NumberItem} {grouping : Bool} {scale pending : ℕ} {zone : Zone}

theorem places_append (run run' : List Char) :
    places (run ++ run') = places run ++ places run' := by
  rw [places, List.filter_append, List.map_append]
  rfl

/-- A placeholder adds a place of its zone. What it does to separators that wait
is left open but for what matters here: before the point none waits any longer. -/
theorem pushDigit_eq (placeholder : Placeholder) : ∃ grouping' pending',
    NumberSection.Progress.pushDigit ⟨⟨items, grouping, scale⟩, zone, pending⟩ placeholder
        = ⟨⟨items ++ [.digit zone placeholder], grouping', scale⟩, zone, pending'⟩
      ∧ (zone = .integer ∨ pending = 0 → pending' = 0) := by
  by_cases hzone : zone = .integer
  · rw [NumberSection.Progress.pushDigit, if_pos hzone]
    exact ⟨_, 0, rfl, fun _ => rfl⟩
  · rw [NumberSection.Progress.pushDigit, if_neg hzone]
    exact ⟨grouping, pending, rfl, fun h => h.resolve_left hzone⟩

theorem token_separator (layout : NumberSection) (hzone : zone ≠ .exponent) :
    NumberSection.Progress.token ⟨layout, zone, pending⟩ (plainLeaf ',')
      = ⟨layout, zone, pending + 1⟩ :=
  if_neg hzone

/-- A run of placeholders and separators adds its places, in order. The
induction is on the run, and it carries that without separators in the run none
waits behind it. -/
theorem foldl_run {run : List Char} (hzone : zone ≠ .exponent)
    (hrun : ∀ c ∈ run, c = '#' ∨ c = '0' ∨ c = ',') : ∃ grouping' pending',
    (run.map plainLeaf).foldl NumberSection.Progress.token ⟨⟨items, grouping, scale⟩, zone, pending⟩
        = ⟨⟨items ++ (places run).map (.digit zone), grouping', scale⟩, zone, pending'⟩
      ∧ (',' ∉ run → pending = 0 → pending' = 0) := by
  induction run generalizing items grouping pending with
  | nil => exact ⟨grouping, pending, by rw [places]; simp, fun _ h => h⟩
  | cons c run ih =>
    rw [List.forall_mem_cons] at hrun
    obtain ⟨hc, hrun⟩ := hrun
    rw [List.map_cons, List.foldl_cons]
    -- a separator adds nothing yet, and a placeholder is a place
    rcases eq_or_ne c ',' with rfl | hcomma
    · obtain ⟨g, n, hfold, -⟩ := @ih items grouping (pending + 1) hrun
      refine ⟨g, n, ?_, fun h => absurd List.mem_cons_self h⟩
      rw [token_separator _ hzone]
      exact hfold
    · have htoken : ∀ progress : NumberSection.Progress, progress.token (plainLeaf c)
          = progress.pushDigit (if c = '0' then .zero else .optional) := by
        rcases hc with rfl | rfl | rfl
        · exact fun _ => rfl
        · exact fun _ => rfl
        · exact absurd rfl hcomma
      obtain ⟨g, n, hpush, hn⟩ := @pushDigit_eq items grouping scale pending zone
        (if c = '0' then .zero else .optional)
      obtain ⟨g', n', hfold, hn'⟩ := @ih _ g n hrun
      refine ⟨g', n', ?_, fun hno h => hn' (List.not_mem_of_not_mem_cons hno) (hn (.inr h))⟩
      rw [htoken, hpush, hfold, places, places, List.filter_cons_of_pos (by simpa using hcomma),
        List.map_cons, List.map_cons, List.append_assoc]
      rfl

/-- A run whose last place is a zero leaves no separators: each of them is
followed by a place, and groups digits instead of scaling the number. -/
theorem foldl_integer {run : List Char} (hrun : ∀ c ∈ run, c = '#' ∨ c = '0' ∨ c = ',')
    (hlast : run.getLast? = some '0') : ∃ grouping',
    (run.map plainLeaf).foldl NumberSection.Progress.token ⟨⟨[], false, 0⟩, .integer, 0⟩
      = ⟨⟨(places run).map (.digit .integer), grouping', 0⟩, .integer, 0⟩ := by
  obtain ⟨front, rfl⟩ := List.getLast?_eq_some_iff.1 hlast
  obtain ⟨g, n, hfold, -⟩ := @foldl_run [] false 0 0 .integer front (by decide)
    fun c hc => hrun c (List.mem_append_left _ hc)
  obtain ⟨g', n', hpush, hn'⟩ :=
    @pushDigit_eq ((places front).map (.digit .integer)) g 0 n .integer .zero
  obtain rfl := hn' (.inl rfl)
  refine ⟨g', ?_⟩
  rw [List.nil_append] at hfold
  rw [List.map_append, List.foldl_append, hfold, places_append, List.map_append]
  exact hpush

theorem foldl_separators (layout : NumberSection) (hzone : zone ≠ .exponent) (n : ℕ) :
    ((List.replicate n ',').map plainLeaf).foldl NumberSection.Progress.token
        ⟨layout, zone, pending⟩ = ⟨layout, zone, pending + n⟩ := by
  induction n generalizing pending with
  | zero => rfl
  | succ n ih =>
    rw [List.replicate_succ, List.map_cons, List.foldl_cons, token_separator _ hzone, ih,
      Nat.add_assoc, Nat.add_comm 1]

theorem foldl_percents (n : ℕ) :
    ((List.replicate n '%').map plainLeaf).foldl NumberSection.Progress.token
        ⟨⟨items, grouping, scale⟩, zone, pending⟩
      = ⟨⟨items ++ List.replicate n .percent, grouping, scale⟩, zone, pending⟩ := by
  induction n generalizing items with
  | zero =>
    rw [List.replicate_zero, List.replicate_zero, List.append_nil]
    rfl
  | succ n ih =>
    rw [List.replicate_succ, List.map_cons, List.foldl_cons, List.replicate_succ,
      List.append_cons]
    exact ih

/-- **The section of a pattern for writing numbers** has its pieces and scales
by its last separators. Whether it groups digits depends on the separators among
the placeholders and is left open. -/
theorem DigitPattern.numberSection_eq (p : DigitPattern) : ∃ grouping,
    NumberSection.ofLeaves (p.text.map plainLeaf) = ⟨p.items, grouping, p.scale⟩ := by
  obtain ⟨g, hinteger⟩ := foldl_integer p.integer_mem p.integer_last
  have hseparators := @foldl_separators 0 .integer
    ⟨(places p.integer).map (.digit .integer), g, 0⟩ (by decide) p.scale
  rw [NumberSection.ofLeaves, text, List.map_append, List.foldl_append, hinteger, List.map_append,
    List.foldl_append, hseparators, List.map_append, List.foldl_append, items, decimals,
    decimalItems, Nat.zero_add]
  split
  · -- without a point, the separators are counted at the end
    rw [List.map_nil, List.foldl_nil, foldl_percents, List.nil_append]
    exact ⟨g, congrArg (NumberSection.mk _ g) (Nat.zero_add p.scale)⟩
  · obtain ⟨g', n, hfraction, hn⟩ := @foldl_run
      ((places p.integer).map (.digit .integer) ++ [.decimalPoint]) g (0 + p.scale) 0 .fraction
      p.fraction (by decide) fun c hc => (p.fraction_mem c hc).imp_right .inl
    obtain rfl := hn (fun h => (p.fraction_mem _ h).elim (by decide) (by decide)) rfl
    have hpoint : NumberSection.Progress.token
        ⟨⟨(places p.integer).map (.digit .integer), g, 0⟩, .integer, p.scale⟩ (plainLeaf '.')
        = ⟨⟨(places p.integer).map (.digit .integer) ++ [.decimalPoint], g, 0 + p.scale⟩,
          .fraction, 0⟩ := rfl
    rw [List.map_cons, List.foldl_cons, hpoint, hfraction, foldl_percents, Nat.zero_add]
    refine ⟨g', congrArg (NumberSection.mk · g' p.scale) ?_⟩
    rw [List.append_assoc, List.append_assoc]
    rfl

/-! ## The formatter -/

theorem contentLeaves_digitsTree (text : List Char) :
    contentLeaves (digitsTree text) = text.map plainLeaf := by
  refine (leavesSkippingAll_of_leaves _ fun leaf hleaf => ?_).2
  obtain ⟨c, -, rfl⟩ := List.mem_map.1 hleaf
  exact ⟨plainKind c, [c], rfl⟩

theorem colour?_condition?_digitsTree (text : List Char) :
    colour? (digitsTree text) = none ∧ condition? (digitsTree text) = none := by
  refine ⟨List.findSome?_eq_none_iff.2 fun leaf hleaf => ?_,
    List.findSome?_eq_none_iff.2 fun child hchild => ?_⟩
  · obtain ⟨block, hblock, -⟩ := List.mem_flatMap.1 hleaf
    obtain ⟨hmem, hcolour⟩ := List.mem_filter.1 hblock
    obtain ⟨c, -, rfl⟩ := List.mem_map.1 hmem
    cases hcolour
  · obtain ⟨c, -, rfl⟩ := List.mem_map.1 hchild
    rfl

namespace DigitPattern

variable (p : DigitPattern)

theorem plainDigits : PlainDigits p.text where
  head := by
    -- the last placeholder before the point is a zero, so there is one; and no
    -- comma opens the run
    have hsome : p.integer ≠ [] := fun h => by simpa [h] using p.integer_last
    obtain ⟨c, rest, hrun⟩ := List.exists_cons_of_ne_nil hsome
    have hc : c ≠ ',' := fun h => p.integer_head (by rw [hrun, h]; rfl)
    have hmem := p.integer_mem c (hrun ▸ List.mem_cons_self)
    rw [text, hrun]
    rcases hmem with rfl | rfl | rfl
    · exact .inl rfl
    · exact .inr rfl
    · exact absurd rfl hc
  mem := by
    intro c hc
    rw [text] at hc
    rcases List.mem_append.1 hc with hc | hc
    · rcases p.integer_mem c hc with rfl | rfl | rfl <;> decide
    rcases List.mem_append.1 hc with hc | hc
    · obtain rfl := List.eq_of_mem_replicate hc
      decide
    rcases List.mem_append.1 hc with hc | hc
    · rw [decimals] at hc
      split at hc
      · cases hc
      · rcases List.mem_cons.1 hc with rfl | hc
        · decide
        · rcases p.fraction_mem c hc with rfl | rfl <;> decide
    · obtain rfl := List.eq_of_mem_replicate hc
      decide

def layout : NumberSection :=
  .ofLeaves (p.text.map plainLeaf)

/-- **A pattern of plain digits is a format** with its one section for every
number. Its text is read by the grammar as `PlainDigits` says, and the section
is compiled by `numberSection_eq`. -/
theorem formatterOf?_text : Converter.formatterOf? .numberFormat p.text
    = .ok (.number ⟨[⟨.always, false, none, .number p.layout⟩], none⟩) := by
  obtain ⟨hcolour, hstated⟩ := colour?_condition?_digitsTree p.text
  have hbody : Body.ofTree? (some (digitsTree p.text)) = .number p.layout :=
    congrArg (fun leaves => Body.number (.ofLeaves leaves)) (contentLeaves_digitsTree p.text)
  have hformat : NumberFormat.ofTrees [some (digitsTree p.text)]
      = ⟨[⟨.always, false, none, .number p.layout⟩], none⟩ := by
    show NumberFormat.mk [sectionAt 1 _ 0 (some (digitsTree p.text))] none = _
    rw [sectionAt, Option.bind_some, hstated, Option.bind_some, hcolour, hbody, List.any_cons,
      Option.bind_some, hstated]
    rfl
  rw [Converter.formatterOf?, p.plainDigits.ofText?_eq (.inl rfl), ← hformat]
  rfl

end DigitPattern

end Worksheet.Format
