import Runbook.Path
import Runbook.Text.Case
import Runbook.Value.Key
import Runbook.Xml.XPath.Evaluation

/-!
# Drilling into values

What a path's segments lead to in a value. Each step looks at the shape of the value it meets, so
a path may cross maps, lists, XML and objects in any nesting. A step that cannot be taken leads
to null.

* `step`: one segment applied to one value.
* `drill`: segments one after another. A query into XML answers for the whole path: the segments
  behind it are not looked at.
-/

namespace Runbook

open Runbook.Text

/-- Whether a key is a query in the language of XML paths. -/
def looksLikeXPath (key : String) : Bool :=
  match key.toList with
  | '/' :: _ => true
  | '.' :: '/' :: '/' :: _ => true
  | _ => false

namespace Xml

/-- The text that a found node shows; comments and instructions show none. -/
def shownText (t : Index) (i : Nat) : Except Error String :=
  let textOf := fun j => match t.contentAt j with
    | .text s => s
    | .reference entity => "&" ++ entity ++ ";"
    | _ => ""
  match t.contentAt i with
  | .comment _ => .error (.value .markupNode)
  | .instruction _ _ => .error (.value .markupNode)
  | .element _ => .ok (String.join ((t.below i).map textOf))
  | _ => .ok (t.textAt i)

/-- The text of one found node, or the list of the texts of several. -/
def foundValue : List String → Value
  | [] => .null
  | [one] => .str one
  | texts => .list (texts.map .str)

/-- What a key leads to in a document, asked from its root element: a query is taken as it is, a
name is looked for everywhere in the document. -/
def lookup (d : Document) (key : String) : Except Error Value :=
  let query := if looksLikeXPath key then key else "//" ++ key
  let t := d.index
  match XPath.select? t d.rootPlace query with
  | none => .ok .null
  | some places => (places.mapM (shownText t)).map foundValue

end Xml

namespace Object

/-- What asking an object for a member by name finds. -/
inductive Member
  | absent
  | broken
  | plain (v : Value)
  | method (m : Method Value)

/-- The member of a name: a property, else an attribute, else a method. -/
def member (o : Object Value) (name : String) : Member :=
  match o.properties.find? (·.1 == name) with
  | some (_, .gives v) => .plain v
  | some (_, .fails _) => .broken
  | none =>
    match o.attributes.find? (·.1 == name) with
    | some (_, v) => .plain v
    | none =>
      match o.methods.find? (·.1 == name) with
      | some (_, m) => .method m
      | none => .absent

/-- What calling a method without arguments gives, unless it refuses or fails. -/
def call? (m : Method Value) : Option Value :=
  match m.arity, m.reply with
  -- a method that needs arguments refuses before it can fail
  | .required, _ => none
  | _, .gives v => some v
  | _, .fails _ => none

/-- The names of the methods that read a member. -/
def accessorNames (key : String) : List String :=
  let capitalized := match key.toList with
    | c :: cs => String.ofList (upperChar c ++ cs)
    | [] => ""
  ["get" ++ capitalized, "get_" ++ key, "is" ++ capitalized, "is_" ++ key]

/-- What an accessor of a name gives. -/
def access? (o : Object Value) (name : String) : Option Value :=
  match o.member name with
  | .method m => call? m
  | _ => none

/-- The member that a key names: by an accessor, else itself. Names that begin with an underscore
are private. -/
def lookup (o : Object Value) (key : String) : Value :=
  if key == "" || key.toList.head? == some '_' then .null
  else
    match (accessorNames key).findSome? o.access? with
    | some v => v
    | none =>
      match o.member key with
      | .plain v => v
      | .method m => (call? m).getD .null
      | _ => .null

/-- The item of a list at a position, counted from the end if it is negative. -/
def itemAt (items : List Value) (position : Int) : Value :=
  let i := if position < 0 then position + items.length else position
  if i < 0 then .null else (items[i.toNat]?).getD .null

/-- What an object gives for a position. -/
def indexed (o : Object Value) (position : Int) : Value :=
  match o.index with
  | some (.items items) => itemAt items position
  | _ => .null

end Object

namespace Value

/-- Whether a value is XML. -/
def isXml : Value → Bool
  | .document _ => true
  | .rootElement _ => true
  | _ => false

/-- The item of a sequence at a position; negative positions are none. -/
def sequenceItem (items : List Value) (position : Int) : Value :=
  if position < 0 then .null else (items[position.toNat]?).getD .null

end Value

/-- The value that one segment leads to. -/
def step (v : Value) (s : Segment) : Except Error Value :=
  match v, s with
  | .document d, .key key => Xml.lookup d key
  | .rootElement d, .key key => Xml.lookup d key
  | .dict entries, .key key => .ok (Entries.field entries key)
  | .mapping entries, .key key => .ok (Entries.field entries key)
  | .list items, .index i => .ok (Value.sequenceItem items i)
  | .tuple items, .index i => .ok (Value.sequenceItem items i)
  | .object o, .key key => .ok (o.lookup key)
  | .object o, .index i => .ok (o.indexed i)
  | _, _ => .ok .null

/-- Whether a segment on a value answers for the whole path. -/
def endsPath (v : Value) : Segment → Bool
  | .key key => v.isXml && looksLikeXPath key
  | .index _ => false

/-- The value that segments lead to. -/
def drill (v : Value) : List Segment → Except Error Value
  | [] => .ok v
  | s :: rest =>
    match step v s with
    | .error e => .error e
    | .ok next => if endsPath v s then .ok next else drill next rest

end Runbook
