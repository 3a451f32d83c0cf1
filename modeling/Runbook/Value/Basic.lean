import Runbook.Calendar.Basic
import Runbook.Number.Decimal
import Runbook.Xml.Tree

/-!
# Values

The dynamic values that variables hold and workflow files are made of: scalars, sequences, maps
with any keys in insertion order, XML, and structured objects of which only members and texts are
known.

* `Value`: one inductive type for all of them.
* `Value.isTruthy`: whether a value counts as given.
* `Value.typeName`: the name of a value's type in messages and tables.
-/

namespace Runbook

/-- What becomes of a placeholder whose variable is absent. -/
inductive MissingPolicy
  | keepAsIs
  | replaceWithEmpty
  | throwError
  deriving DecidableEq, Repr

/-- The text of a policy. -/
def MissingPolicy.text : MissingPolicy → String
  | .keepAsIs => "keep_as_is"
  | .replaceWithEmpty => "replace_with_empty"
  | .throwError => "throw_error"

/-- The policies in the order messages list them. -/
def MissingPolicy.all : List MissingPolicy := [.keepAsIs, .replaceWithEmpty, .throwError]

/-- What asking for a member leads to. -/
inductive Reply (α : Type)
  | gives (result : α)
  | fails (reason : String)

/-- Whether a method can be called without an argument. -/
inductive Arity
  | none
  | optional
  | required
  deriving DecidableEq, Repr

/-- A method of an object. -/
structure Method (α : Type) where
  arity : Arity
  reply : Reply α

/-- What indexing an object with an integer leads to. -/
inductive Indexing (α : Type)
  | items (members : List α)
  | fails (reason : String)

/-- What asking an object for its text leads to. -/
inductive ObjectText
  | gives (content : String)
  | fails (reason : String)
  | interrupts
  deriving DecidableEq, Repr

/-- A structured object. An attribute hides a method of the same name; a property is an attribute
whose value is worked out when it is asked for. -/
structure Object (α : Type) where
  label : String
  text : ObjectText
  attributes : List (String × α)
  methods : List (String × Method α)
  properties : List (String × Reply α)
  index : Option (Indexing α)

/-- A dynamic value. -/
inductive Value
  | null
  | bool (b : Bool)
  | int (n : Int)
  | float (x : Binary64)
  | decimal (d : Decimal)
  | str (s : String)
  | bytes (bs : List UInt8)
  | byteArray (bs : List UInt8)
  | date (d : Date)
  | dateTime (d : DateTime)
  | time (t : TimeOfDay)
  | list (items : List Value)
  | tuple (items : List Value)
  | dict (entries : List (Value × Value))
  | mapping (entries : List (Value × Value))
  | document (d : Xml.Document)
  | rootElement (d : Xml.Document)
  | object (o : Object Value)
  | type (name : String)
  | policy (p : MissingPolicy)

/-- The entries of a map, in insertion order. -/
abbrev Entries := List (Value × Value)

namespace Value

instance : Inhabited Value := ⟨.null⟩

/-- The name of a value's type. -/
def typeName : Value → String
  | .null => "NoneType"
  | .bool _ => "bool"
  | .int _ => "int"
  | .float _ => "float"
  | .decimal _ => "Decimal"
  | .str _ => "str"
  | .bytes _ => "bytes"
  | .byteArray _ => "bytearray"
  | .date _ => "date"
  | .dateTime _ => "datetime"
  | .time _ => "time"
  | .list _ => "list"
  | .tuple _ => "tuple"
  | .dict _ => "dict"
  | .mapping _ => "mappingproxy"
  | .document _ => "_ElementTree"
  | .rootElement _ => "_Element"
  | .object _ => "Obj"
  | .type _ => "type"
  | .policy _ => "MissingVariablePolicy"

/-- Whether a value counts as given: not null, false, zero or empty. -/
def isTruthy : Value → Bool
  | .null => false
  | .bool b => b
  | .int n => n != 0
  | .float x => !x.same (.zero false)
  | .decimal d => d.isTruthy
  | .str s => s != ""
  | .bytes bs => !bs.isEmpty
  | .byteArray bs => !bs.isEmpty
  | .list items => !items.isEmpty
  | .tuple items => !items.isEmpty
  | .dict entries => !entries.isEmpty
  | .mapping entries => !entries.isEmpty
  | .rootElement d => d.children.any fun n => match n with
    | .text _ => false
    | _ => true
  | _ => true

/-- The text that a value is; a policy is the text of its name. -/
def asText? : Value → Option String
  | .str s => some s
  | .policy p => some p.text
  | _ => none

/-- Whether a value is a given text. -/
def isText (v : Value) (s : String) : Bool :=
  v.asText? == some s

/-- A value, or another one if it does not count as given. -/
def orElse (v other : Value) : Value :=
  if v.isTruthy then v else other

end Value

end Runbook
