import Runbook.Value.Basic

/-!
# Keys of maps

When two values are one key, and maps as lists of entries in insertion order. Numbers are one key
when they are equal, whatever their types: `1`, `1.0` and `true` are.

* `Value.sameKey`: whether two values are one key.
* `Entries.get?`, `Entries.insert`, `Entries.erase`: looking up, writing and removing. Writing an
  existing key keeps its place and the key object that was there.
-/

namespace Runbook

/-- A number as an exact ratio, or as an infinity with its sign. -/
inductive ExactNumber
  | ratio (num : Int) (den : Nat)
  | infinity (negative : Bool)

/-- Whether two exact numbers are equal. -/
def ExactNumber.same : ExactNumber → ExactNumber → Bool
  | .ratio a b, .ratio c d => a * d == c * b
  | .infinity a, .infinity b => a == b
  | _, _ => false

namespace Value

/-- The exact number that a value is. -/
def exactNumber? : Value → Option ExactNumber
  | .bool b => some (.ratio (if b then 1 else 0) 1)
  | .int n => some (.ratio n 1)
  | .float (.infinity s) => some (.infinity s)
  | .float x => x.toRatio?.map fun (n, d) => .ratio n d
  | .decimal (.infinity s) => some (.infinity s)
  | .decimal (.finite s c e) =>
    let r := Binary64.scaleRatio 10 c 1 e
    some (.ratio (if s then -(r.1 : Int) else r.1) r.2)
  | _ => none

/-- Whether two values without members are equal. -/
def sameScalar (a b : Value) : Bool :=
  match a, b with
  | .null, .null => true
  | .bytes x, .bytes y => x == y
  | .date x, .date y => x == y
  | .dateTime x, .dateTime y => x == y
  | .time x, .time y => x == y
  | _, _ =>
    match a.asText?, b.asText? with
    | some x, some y => x == y
    | _, _ =>
      match a.exactNumber?, b.exactNumber? with
      | some x, some y => x.same y
      | _, _ => false

mutual

/-- Whether two values are one key. Objects and other values with an identity are no key but
themselves, and are not found again. -/
def sameKey : Value → Value → Bool
  | .tuple xs, b =>
    match b with
    | .tuple ys => sameKeys xs ys
    | _ => false
  | a, b => sameScalar a b

/-- Whether values are the same keys one by one. -/
def sameKeys : List Value → List Value → Bool
  | [], [] => true
  | x :: xs, y :: ys => sameKey x y && sameKeys xs ys
  | _, _ => false

end

end Value

namespace Entries

/-- The value under a key. -/
def get? (entries : Entries) (key : Value) : Option Value :=
  (entries.find? fun e => e.1.sameKey key).map (·.2)

/-- The value under a text key. -/
def field? (entries : Entries) (name : String) : Option Value :=
  entries.get? (.str name)

/-- The value under a text key, or null. -/
def field (entries : Entries) (name : String) : Value :=
  (entries.field? name).getD .null

/-- The value under a text key, or a default if there is none. -/
def fieldOr (entries : Entries) (name : String) (default : Value) : Value :=
  (entries.field? name).getD default

/-- Whether there is an entry under a text key. -/
def hasField (entries : Entries) (name : String) : Bool :=
  (entries.field? name).isSome

/-- The entries with a value written under a key. -/
def insert (entries : Entries) (key v : Value) : Entries :=
  match entries with
  | [] => [(key, v)]
  | (k, old) :: rest =>
    if k.sameKey key then (k, v) :: rest else (k, old) :: insert rest key v

/-- The map that writing entries one after another leads to. -/
def ofList (pairs : List (Value × Value)) : Entries :=
  pairs.foldl (fun entries e => insert entries e.1 e.2) []

end Entries

end Runbook
