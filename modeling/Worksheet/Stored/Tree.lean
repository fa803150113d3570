import Worksheet.Stored.Datum

/-!
# Stored nodes

The nodes of trees are stored as records: the name of their kind as `type`, what
the kind holds as `value` if it holds anything, and their `text`. Inner nodes
have a list of `children` as well.

A kind is read more freely than other data: wherever a case of it holds nothing,
an empty record may stand for the null.

There are two types of trees that are stored like this, those of patterns and
those of formulas. All they differ in is what kinds there are: a `NodeReader`
says how these are read, and `node?` reads a tree with it.
-/

namespace Worksheet.Datum

/-- The name of a node's kind and what the kind holds; null when it holds
nothing. -/
abbrev KindForm : Type :=
  String × Datum

/-- The fields of a kind. -/
def kindFields (kind : KindForm) : List (String × Datum) :=
  ("type", name kind.1) :: if kind.2.isNull then [] else [("value", kind.2)]

/-- A leaf, stored. -/
def ofLeaf (kind : KindForm) (content : List Char) : Datum :=
  record (kindFields kind ++ [("text", text content)])

/-- An inner node with stored children, stored. -/
def ofParent (kind : KindForm) (children : List Datum) (content : List Char) : Datum :=
  record (kindFields kind ++ [("children", list children), ("text", text content)])

mutual

/-- The same data, with null for every empty record that a case holds. -/
def nulled : Datum → Datum
  | record [(case, record [])] => record [(case, null)]
  | record fields => record (nulledFields fields)
  | list items => list (nulledItems items)
  | datum => datum

/-- The same fields, with null for every empty record that a case inside them
holds. -/
def nulledFields : List (String × Datum) → List (String × Datum)
  | [] => []
  | (name, datum) :: fields => (name, datum.nulled) :: nulledFields fields

/-- The same items, with null for every empty record that a case inside them
holds. -/
def nulledItems : List Datum → List Datum
  | [] => []
  | item :: items => item.nulled :: nulledItems items

end

/-- The name and the contents of the kind in a record. -/
def kindForm? (fields : List (String × Datum)) : Option KindForm :=
  match (field "type" fields).nulled.case? with
  | some (name, null) => some (name, (field "value" fields).nulled)
  | _ => none

/-- **How the nodes of a type of trees are read**: what kinds there are, and
what node there is of a kind. There is one for pattern trees and one for formula
trees. -/
structure NodeReader (κ π τ : Type) where
  /-- The kind of a leaf. -/
  leafKind? : KindForm → Option κ
  /-- The kind of an inner node. -/
  parentKind? : KindForm → Option π
  /-- The leaf of a kind, with its text. -/
  leaf : κ → List Char → τ
  /-- The inner node of a kind, with its children and its text. -/
  parent : π → List τ → List Char → τ

namespace NodeReader

variable {κ π τ : Type} (reader : NodeReader κ π τ)

/-- A leaf read back from the fields of a record. -/
def leaf? (fields : List (String × Datum)) : Option τ := do
  return reader.leaf (← reader.leafKind? (← kindForm? fields)) (← (field "text" fields).text?)

/-- An inner node read back from the fields of a record and from its children. -/
def parent? (fields : List (String × Datum)) (children : Option (List τ)) : Option τ := do
  return reader.parent (← reader.parentKind? (← kindForm? fields)) (← children)
    (← (field "text" fields).text?)

mutual

/-- **A stored tree**: an inner node if it reads as one, else a leaf. A record
with children that do not read as nodes may still be a leaf. -/
def node? : Datum → Option τ
  | record fields =>
    let asParent :=
      match _h : field? "children" fields with
      | some (list items) => reader.parent? fields (nodes? items)
      | _ => none
    asParent.or (reader.leaf? fields)
  | _ => none
termination_by datum => sizeOf datum
decreasing_by
  have := sizeOf_field?_lt ‹_›
  simp only [list.sizeOf_spec, record.sizeOf_spec] at this ⊢
  omega

/-- Stored trees. -/
def nodes? : List Datum → Option (List τ)
  | [] => some []
  | item :: items => do return (← node? item) :: (← nodes? items)
termination_by items => sizeOf items

end

end NodeReader

end Worksheet.Datum
