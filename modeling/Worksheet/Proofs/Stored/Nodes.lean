import Worksheet.Stored.Tree

/-!
# Stored nodes are read back

A node is stored as its kind, its text and, when it is an inner node, its
children. Each of them is found again in the record
(`Datum.kindForm?_kindFields`), so a leaf and an inner node are read back when
their kinds and their children are (`Datum.NodeReader.node?_ofLeaf`,
`Datum.NodeReader.node?_ofParent`). Only inner nodes have children, which tells
them apart even where a leaf has a kind of the same name. The children
themselves are read back one by one (`Datum.readItems?_map`).

A kind is read freely: an empty record that a case holds counts as null. What is
stored for the kinds of the library has no such record (`Datum.Plain`), so
nothing changes.

The other way round, a node that is read back has a kind that was read back, and
children that were. Whatever is true of all such nodes is true of every tree
that is read (`Datum.NodeReader.node?_induction`); its texts may be any.

None of this knows what trees there are. Those of patterns and those of formulas
are read by a `Datum.NodeReader` each, and take from here all that they have in
common.
-/

namespace Worksheet.Datum

/-- **Data that is read freely as it is**: no case in it holds an empty record. -/
def Plain (datum : Datum) : Prop :=
  datum.nulled = datum

variable {kind : KindForm} {rest : List (String × Datum)}

theorem field?_kindFields_append {name : String} (htype : name ≠ "type") (hvalue : name ≠ "value")
    (kind : KindForm) (rest : List (String × Datum)) :
    field? name (kindFields kind ++ rest) = field? name rest := by
  unfold kindFields
  rw [List.cons_append, field?, if_neg (Ne.symm htype)]
  split
  · rfl
  · rw [List.singleton_append, field?, if_neg (Ne.symm hvalue)]

/-- **The kind of a node is read back**, if what it holds is not changed by
reading it freely. -/
theorem kindForm?_kindFields (hplain : kind.2.Plain) (hrest : field? "value" rest = none) :
    kindForm? (kindFields kind ++ rest) = some kind := by
  obtain ⟨case, content⟩ := kind
  have htype : field "type" (kindFields (case, content) ++ rest) = name case := rfl
  have hvalue : field "value" (kindFields (case, content) ++ rest) = content := by
    unfold field kindFields
    rw [List.cons_append, field?, if_neg (by decide)]
    cases hnull : content.isNull with
    | true =>
      have hcontent : content = null := by
        cases content <;> first | rfl | cases hnull
      rw [if_pos rfl, List.nil_append, hrest, hcontent]
      rfl
    | false =>
      rw [if_neg Bool.false_ne_true, List.singleton_append, field?, if_pos rfl]
      rfl
  have hname : (name case).nulled.case? = some (case, null) := by
    show some (String.ofList case.toList, null) = _
    rw [String.ofList_toList]
  have hcontent : content.nulled = content := hplain
  rw [kindForm?, htype, hvalue, hname, hcontent]

variable {κ π τ : Type}

/-- Items that are written one by one are written each for itself. -/
theorem writeItems_eq_map (write : τ → Datum) (writeItems : List τ → List Datum)
    (hnil : writeItems [] = [])
    (hcons : ∀ a as, writeItems (a :: as) = write a :: writeItems as) (as : List τ) :
    writeItems as = as.map write := by
  induction as with
  | nil => exact hnil
  | cons a as ih => rw [hcons, ih, List.map_cons]

/-- **Items are read back** one by one, whichever type they are of: all that is
asked of `readItems?` is that it reads a list from its front with `readItem?`. -/
theorem readItems?_map {readItem? : Datum → Option τ} {readItems? : List Datum → Option (List τ)}
    {write : τ → Datum} (hnil : readItems? [] = some [])
    (hcons : ∀ item items, readItems? (item :: items)
      = (readItem? item).bind fun a => (readItems? items).bind fun as => some (a :: as))
    {as : List τ} (h : ∀ a ∈ as, readItem? (write a) = some a) :
    readItems? (as.map write) = some as := by
  induction as with
  | nil => exact hnil
  | cons a as ih =>
    obtain ⟨ha, has⟩ := List.forall_mem_cons.1 h
    rw [List.map_cons, hcons, ha, ih has]
    rfl

/-! ## What is read

Records are read by recursion on data that has lists of data in it. The
induction for this is stated once, with the items of a list as its premise. -/

/-- **Induction on stored nodes**: a record is judged after the children it
lists. The readers recurse on data in this way, and not on the trees they give. -/
theorem nodeInduction {motive : Datum → Prop}
    (record : ∀ fields, (∀ items, field? "children" fields = some (list items) →
      ∀ item ∈ items, motive item) → motive (record fields))
    (other : ∀ datum, (∀ fields, datum ≠ .record fields) → motive datum) (datum : Datum) :
    motive datum := by
  induction hsize : sizeOf datum using Nat.strongRecOn generalizing datum with
  | ind size ih =>
    subst hsize
    cases datum with
    | record fields =>
      refine record fields fun items hitems item hitem => ih (sizeOf item) ?_ item rfl
      have hfield := sizeOf_field?_lt hitems
      have hsmaller := List.sizeOf_lt_of_mem hitem
      simp only [Datum.list.sizeOf_spec, Datum.record.sizeOf_spec] at hfield ⊢
      omega
    | _ => exact other _ nofun

/-- **Items that are read** were read one by one. -/
theorem forall_of_readItems? {readItem? : Datum → Option τ}
    {readItems? : List Datum → Option (List τ)} (hnil : readItems? [] = some [])
    (hcons : ∀ item items, readItems? (item :: items)
      = (readItem? item).bind fun a => (readItems? items).bind fun as => some (a :: as))
    {items : List Datum} {as : List τ} (h : readItems? items = some as) :
    ∀ a ∈ as, ∃ item ∈ items, readItem? item = some a := by
  induction items generalizing as with
  | nil =>
    rw [hnil] at h
    obtain rfl := Option.some.inj h
    exact nofun
  | cons item items ih =>
    simp only [hcons, Option.bind_eq_some_iff] at h
    obtain ⟨first, hfirst, others, hothers, h⟩ := h
    obtain rfl := Option.some.inj h
    refine List.forall_mem_cons.2 ⟨⟨item, List.mem_cons_self, hfirst⟩, fun a ha => ?_⟩
    obtain ⟨item', hitem', hread⟩ := ih hothers a ha
    exact ⟨item', List.mem_cons_of_mem _ hitem', hread⟩

/-! ## The fields of nodes

A node is a leaf when its record has no field for children. The fields of the
kind come first and have two names of their own, so the others are found behind
them. -/

theorem field?_children_ofLeaf (kind : KindForm) (content : List Char) :
    field? "children" (kindFields kind ++ [("text", text content)]) = none := by
  rw [field?_kindFields_append (by decide) (by decide)]
  rfl

theorem field?_children_ofParent (kind : KindForm) (items : List Datum) (content : List Char) :
    field? "children" (kindFields kind ++ [("children", list items), ("text", text content)])
      = some (list items) := by
  rw [field?_kindFields_append (by decide) (by decide)]
  rfl

/-! ## Nodes

The lemmas hold for every reader of nodes. The trees of formulas and those of
patterns are instances, each with its readers of kinds. -/

namespace NodeReader

variable (reader : NodeReader κ π τ)

theorem nodes?_cons (item : Datum) (items : List Datum) :
    reader.nodes? (item :: items) = (reader.node? item).bind fun node =>
      (reader.nodes? items).bind fun nodes => some (node :: nodes) := by
  rw [nodes?]
  rfl

/-- **A leaf is read back** when its kind is. It has no field for children, so
it is tried as a leaf only. -/
theorem node?_ofLeaf {leafKind : κ} (hkind : reader.leafKind? kind = some leafKind)
    (hplain : kind.2.Plain) (content : List Char) :
    reader.node? (ofLeaf kind content) = some (reader.leaf leafKind content) := by
  have htext : field "text" (kindFields kind ++ [("text", text content)]) = text content := by
    rw [field, field?_kindFields_append (by decide) (by decide)]
    rfl
  have hleaf : reader.leaf? (kindFields kind ++ [("text", text content)])
      = some (reader.leaf leafKind content) := by
    rw [leaf?, kindForm?_kindFields hplain rfl, htext]
    show (reader.leafKind? kind).bind _ = _
    rw [hkind]
    rfl
  have hnone := field?_children_ofLeaf kind content
  rw [ofLeaf, node?, hleaf]
  split
  · rename_i hsome
    rw [hnone] at hsome
    cases hsome
  · rfl

/-- **An inner node is read back** when its kind and its children are. -/
theorem node?_ofParent {parentKind : π} (hkind : reader.parentKind? kind = some parentKind)
    (hplain : kind.2.Plain) {write : τ → Datum} {children : List τ}
    (hchildren : ∀ child ∈ children, reader.node? (write child) = some child)
    (content : List Char) :
    reader.node? (ofParent kind (children.map write) content)
      = some (reader.parent parentKind children content) := by
  have htext : field "text"
      (kindFields kind ++ [("children", list (children.map write)), ("text", text content)])
      = text content := by
    rw [field, field?_kindFields_append (by decide) (by decide)]
    rfl
  have hread : reader.nodes? (children.map write) = some children :=
    readItems?_map (by rw [nodes?]) reader.nodes?_cons hchildren
  have hparent : reader.parent?
      (kindFields kind ++ [("children", list (children.map write)), ("text", text content)])
      (some children) = some (reader.parent parentKind children content) := by
    rw [parent?, kindForm?_kindFields hplain rfl, htext]
    show (reader.parentKind? kind).bind _ = _
    rw [hkind]
    rfl
  have hsome := field?_children_ofParent kind (children.map write) content
  rw [ofParent, node?]
  split
  · rename_i items hitems
    rw [hsome] at hitems
    obtain rfl := list.inj (Option.some.inj hitems)
    rw [hread, hparent]
    rfl
  · rename_i hnone
    exact absurd hsome (hnone _)

variable {reader} {fields : List (String × Datum)} {node : τ}

theorem exists_of_leaf? (h : reader.leaf? fields = some node) :
    ∃ form kind content, reader.leafKind? form = some kind ∧ node = reader.leaf kind content := by
  simp only [leaf?, Option.bind_eq_bind, Option.bind_eq_some_iff] at h
  obtain ⟨form, -, kind, hkind, content, -, h⟩ := h
  exact ⟨form, kind, content, hkind, (Option.some.inj h).symm⟩

theorem exists_of_parent? {children : Option (List τ)}
    (h : reader.parent? fields children = some node) :
    ∃ kind nodes content, children = some nodes ∧ node = reader.parent kind nodes content := by
  simp only [parent?, Option.bind_eq_bind, Option.bind_eq_some_iff] at h
  obtain ⟨_, -, kind, -, nodes, hnodes, content, -, h⟩ := h
  exact ⟨kind, nodes, content, hnodes, (Option.some.inj h).symm⟩

/-- **Induction on what is read.** A property that leaves of kinds that are read
have, and inner nodes when their children have it, is one of every tree that is
read. -/
theorem node?_induction (reader : NodeReader κ π τ) {motive : τ → Prop}
    (leaf : ∀ form kind content, reader.leafKind? form = some kind →
      motive (reader.leaf kind content))
    (parent : ∀ kind children content, (∀ child ∈ children, motive child) →
      motive (reader.parent kind children content))
    {datum : Datum} (h : reader.node? datum = some node) : motive node := by
  induction datum using nodeInduction generalizing node with
  | record fields ih =>
    rw [node?] at h
    rcases Option.or_eq_some_iff.1 h with h | ⟨-, h⟩
    · split at h
      · rename_i items hitems
        obtain ⟨kind, children, content, hchildren, rfl⟩ := exists_of_parent? h
        refine parent kind children content fun child hchild => ?_
        obtain ⟨item, hitem, hread⟩ :=
          forall_of_readItems? (by rw [nodes?]) reader.nodes?_cons hchildren child hchild
        exact ih items hitems item hitem hread
      · cases h
    · obtain ⟨form, kind, content, hkind, rfl⟩ := exists_of_leaf? h
      exact leaf form kind content hkind
  | other datum hother =>
    rw [node?] at h
    · cases h
    · exact hother

end NodeReader

end Worksheet.Datum
