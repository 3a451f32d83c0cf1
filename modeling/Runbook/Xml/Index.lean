import Runbook.Xml.Tree

/-!
# Documents in document order

A document as a table of its nodes in document order: the document itself, then each element, its
attributes and its children. The nodes below a node are a range of the table.

* `Document.index`: the table of a document.
* `Index.textAt`: the text of the node at a place.
-/

namespace Runbook.Xml

/-- What stands at a place of the table. -/
inductive Content
  | document
  | element (name : Name)
  | attribute (name : Name) (value : String)
  | text (s : String)
  | comment (s : String)
  | instruction (target s : String)
  | reference (entity : String)
  deriving Repr

/-- A node with the place of its parent and the number of places that it and all below it take. -/
structure Entry where
  content : Content
  parent : Nat
  size : Nat
  deriving Repr

/-- The nodes of a document in document order. -/
abbrev Index := Array Entry

mutual

/-- The number of places that a node takes with all below it. -/
def Node.places : Node → Nat
  | .element _ attributes children => 1 + attributes.length + placesOf children
  | _ => 1

/-- The number of places that nodes take. -/
def placesOf : List Node → Nat
  | [] => 0
  | n :: ns => n.places + placesOf ns

end

mutual

/-- The entries of a node at a place. -/
def Node.entries (n : Node) (parent place : Nat) : List Entry :=
  match n with
  | .element name attributes children =>
    ⟨.element name, parent, 1 + attributes.length + placesOf children⟩ ::
      (attributes.map fun a => ⟨.attribute a.name a.value, place, 1⟩) ++
      entriesOf children place (place + 1 + attributes.length)
  | .text s => [⟨.text s, parent, 1⟩]
  | .comment s => [⟨.comment s, parent, 1⟩]
  | .instruction target s => [⟨.instruction target s, parent, 1⟩]
  | .reference entity => [⟨.reference entity, parent, 1⟩]

/-- The entries of nodes that stand one after another. -/
def entriesOf (nodes : List Node) (parent place : Nat) : List Entry :=
  match nodes with
  | [] => []
  | n :: ns => n.entries parent place ++ entriesOf ns parent (place + n.places)

end

/-- The table of a document. -/
def Document.index (d : Document) : Index :=
  (⟨.document, 0, 1 + placesOf d.nodes⟩ :: entriesOf d.nodes 0 1).toArray

/-- The place of the root element. -/
def Document.rootPlace (d : Document) : Nat :=
  1 + placesOf d.before

namespace Index

/-- What stands at a place. -/
def contentAt (t : Index) (i : Nat) : Content :=
  match t[i]? with
  | some e => e.content
  | none => .document

/-- The place behind all places below a place. -/
def endOf (t : Index) (i : Nat) : Nat :=
  match t[i]? with
  | some e => i + e.size
  | none => i + 1

/-- The parent of a place; the document has none. -/
def parentOf? (t : Index) (i : Nat) : Option Nat :=
  if i = 0 then none else (t[i]?).map (·.parent)

/-- Whether an attribute stands at a place. -/
def isAttribute (t : Index) (i : Nat) : Bool :=
  match t.contentAt i with
  | .attribute .. => true
  | _ => false

/-- The places strictly below a place, attributes left out. -/
def below (t : Index) (i : Nat) : List Nat :=
  ((List.range (t.endOf i)).drop (i + 1)).filter (!t.isAttribute ·)

/-- The text of the node at a place: an element's is the text below it. -/
def textAt (t : Index) (i : Nat) : String :=
  let textOf := fun j => match t.contentAt j with
    | .text s => s
    | _ => ""
  match t.contentAt i with
  | .document => String.join ((t.below i).map textOf)
  | .element _ => String.join ((t.below i).map textOf)
  | .attribute _ value => value
  | .text s => s
  | .comment s => s
  | .instruction _ s => s
  | .reference _ => ""

end Index

end Runbook.Xml
