/-!
# XML trees

Documents with expanded names. Adjacent text is one text node, whatever mixture of characters,
references and CDATA sections it was written with.

* `Node.text`: the text of a node, all descendant text in order without comments and
  instructions.
* `Document.nodes`: the children of the document.
-/

namespace Runbook.Xml

/-- A name with the namespace it belongs to. -/
structure Name where
  space : Option String
  label : String
  deriving DecidableEq, Repr

/-- The name with its namespace in front, in braces. -/
def Name.tag (n : Name) : String :=
  match n.space with
  | some s => "\x7b" ++ s ++ "\x7d" ++ n.label
  | none => n.label

/-- An attribute with its normalised value. -/
structure Attribute where
  name : Name
  value : String
  deriving DecidableEq, Repr

/-- A node of a document. A reference stands for an entity that is kept unexpanded. -/
inductive Node
  | element (name : Name) (attributes : List Attribute) (children : List Node)
  | text (content : String)
  | comment (content : String)
  | instruction (target content : String)
  | reference (entity : String)
  deriving Repr

mutual

/-- The text of a node: its descendant text without comments and instructions. -/
def Node.textContent : Node → String
  | .element _ _ children => textContents children
  | .text s => s
  | .comment _ => ""
  | .instruction _ _ => ""
  | .reference entity => "&" ++ entity ++ ";"

/-- The text of nodes one after another. -/
def textContents : List Node → String
  | [] => ""
  | n :: ns => n.textContent ++ textContents ns

end

/-- A document: its root element with what stands before and after it. -/
structure Document where
  before : List Node
  name : Name
  attributes : List Attribute
  children : List Node
  after : List Node
  deriving Repr

/-- The root element. -/
def Document.root (d : Document) : Node :=
  .element d.name d.attributes d.children

/-- The children of the document. -/
def Document.nodes (d : Document) : List Node :=
  d.before ++ d.root :: d.after

end Runbook.Xml
