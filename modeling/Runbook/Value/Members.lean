import Runbook.Error
import Runbook.Value.Key

/-!
# Members of values

Taking a value apart where a collection is expected.

* `Value.asMap`: the entries of a map.
* `Value.items`: what going through a value gives: the items of a sequence, the keys of a map, the
  characters of a text, the numbers of bytes.
* `Value.entriesOf`: the entries of a map, or of a collection of pairs.
* `Value.pairItems`, `Value.unpackPair`: going through what a value has as pairs, one by one.
-/

namespace Runbook

/-- What calling a method without arguments gives. -/
def Method.call (name : String) (m : Method Value) : Except Error Value :=
  match m.arity, m.reply with
  -- a method that needs arguments refuses before it can fail
  | .required, _ => .error (.kind (.argumentMissing name))
  | _, .gives v => .ok v
  | _, .fails reason => .error (.failure reason)

/-- What calling a member of an object without arguments gives. Only methods can be called, and a
property or an attribute hides the method of its name. -/
def Object.callMember (o : Object Value) (name : String) : Except Error Value :=
  match o.properties.find? (·.1 == name), o.attributes.find? (·.1 == name),
    o.methods.find? (·.1 == name) with
  | some (_, .fails reason), _, _ => .error (.failure reason)
  | some (_, .gives v), _, _ => .error (.kind (.notCallable v.typeName))
  | none, some (_, v), _ => .error (.kind (.notCallable v.typeName))
  | none, none, some (_, m) => m.call name
  | none, none, none => .error (.noMember (Value.object o).typeName name)

namespace Value

/-- The entries of a map; another value has no member of the name that was asked for. -/
def asMap (asked : String) : Value → Except Error Entries
  | .dict entries => .ok entries
  | .mapping entries => .ok entries
  | v => .error (.noMember v.typeName asked)

/-- The entries of a dictionary. -/
def dict? : Value → Option Entries
  | .dict entries => some entries
  | _ => none

/-- The items of a list. -/
def list? : Value → Option (List Value)
  | .list items => some items
  | _ => none

/-- The characters of a text, each as a text. -/
def characters (s : String) : List Value :=
  s.toList.map fun c => .str (String.singleton c)

/-- The numbers of bytes. -/
def numbers (bs : List UInt8) : List Value :=
  bs.map fun b => .int b.toNat

/-- What going through a value gives. -/
def items : Value → Except Error (List Value)
  | .list items => .ok items
  | .tuple items => .ok items
  | .dict entries => .ok (entries.map (·.1))
  | .mapping entries => .ok (entries.map (·.1))
  | .str s => .ok (characters s)
  | .policy p => .ok (characters p.text)
  | .bytes bs => .ok (numbers bs)
  | .byteArray bs => .ok (numbers bs)
  | .object o =>
    match o.index with
    | some (.items members) => .ok members
    | some (.fails reason) => .error (.failure reason)
    | none => .error (.kind (.notIterable (Value.object o).typeName))
  | v => .error (.kind (.notIterable v.typeName))

mutual

/-- The name of the type that keeps a value from being a key, if one does. -/
def unhashable? : Value → Option String
  | .list _ => some "list"
  | .dict _ => some "dict"
  | .mapping _ => some "mappingproxy"
  | .byteArray _ => some "bytearray"
  | .tuple items => firstUnhashable? items
  | _ => none

/-- The name of the first such type among the types of values. -/
def firstUnhashable? : List Value → Option String
  | [] => none
  | v :: vs =>
    match v.unhashable? with
    | some typeName => some typeName
    | none => firstUnhashable? vs

end

/-- The key and the value of a pair, which is a collection of two items. -/
def pair (position : Nat) (v : Value) : Except Error (Value × Value) :=
  match v.items with
  | .ok [key, w] =>
    match key.unhashable? with
    | some typeName => .error (.kind (.notHashable typeName))
    | none => .ok (key, w)
  | .ok others => .error (.value (.pairLength position others.length))
  | .error (.kind _) => .error (.kind (.notPair position))
  | .error e => .error e

/-- The entries of a map, or of a collection of pairs. -/
def entriesOf : Value → Except Error Entries
  | .dict entries => .ok entries
  | .mapping entries => .ok entries
  | v => do
    let pairs ← (← v.items).zipIdx.mapM fun (item, position) => pair position item
    return Entries.ofList pairs

/-- The pairs of a map to go through. An element has those of its attributes, and an object what its
method `items` gives, whatever that is. -/
def pairItems : Value → Except Error (List Value)
  | .dict entries => .ok (entries.map fun e => .tuple [e.1, e.2])
  | .mapping entries => .ok (entries.map fun e => .tuple [e.1, e.2])
  | .rootElement d => .ok (d.attributes.map fun a => .tuple [.str a.name.tag, .str a.value])
  | .object o =>
    match o.callMember "items" with
    | .error e => .error e
    | .ok v => v.items
  | v => .error (.noMember v.typeName "items")

/-- The two values that one is unpacked into. -/
def unpackPair (v : Value) : Except Error (Value × Value) :=
  match v.items with
  | .ok [first, second] => .ok (first, second)
  | .ok others => .error (.value (.unpacked others.length))
  | .error (.kind _) => .error (.kind (.notUnpackable v.typeName))
  | .error e => .error e

end Value

end Runbook
