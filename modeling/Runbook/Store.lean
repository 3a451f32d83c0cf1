import Runbook.Drill
import Runbook.Json.Printer
import Runbook.Value.Members

/-!
# The variable store

Variables by scope and key, in the order in which they were first written, with the policy for
absent ones. Only base variables are stored; the steps of an expression are taken when it is read.

* `Store.put`, `Store.erase`, `Store.clear`: writing and removing.
* `Store.lookup?`: the value of a base variable.
* `Store.set`, `Store.setScoped`, `Store.setAll`, `Store.update`: writing under names.
* `Store.get`: the value of an expression.
-/

namespace Runbook

open Runbook.Text

/-- The scope and the key of a variable. -/
abbrev Base := String × String

/-- The base variable of a path. -/
def Path.base (p : Path) : Base := (p.scope, p.key)

/-- Variables in the order of their first write. -/
abbrev Variables := List (Base × Value)

namespace Variables

/-- The value of a variable. -/
def lookup? (vs : Variables) (b : Base) : Option Value :=
  (vs.find? (·.1 == b)).map (·.2)

/-- The variables with one written; an existing one keeps its place. -/
def put (vs : Variables) (b : Base) (v : Value) : Variables :=
  match vs with
  | [] => [(b, v)]
  | (c, old) :: rest => if c == b then (c, v) :: rest else (c, old) :: put rest b v

/-- The variables without one. -/
def erase (vs : Variables) (b : Base) : Variables :=
  vs.filter (·.1 != b)

end Variables

/-- Variables with the policy for absent ones. -/
structure Store where
  entries : Variables
  policy : MissingPolicy

namespace Store

/-- A store without variables. -/
def empty (policy : MissingPolicy) : Store := ⟨[], policy⟩

/-- The number of variables. -/
def size (s : Store) : Nat := s.entries.length

/-- The value of a base variable. -/
def lookup? (s : Store) (b : Base) : Option Value := s.entries.lookup? b

/-- Whether a base variable is present. -/
def has (s : Store) (b : Base) : Bool := (s.lookup? b).isSome

/-- The store with a base variable written. -/
def put (s : Store) (b : Base) (v : Value) : Store :=
  { s with entries := s.entries.put b v }

/-- The store without a base variable. -/
def erase (s : Store) (b : Base) : Store :=
  { s with entries := s.entries.erase b }

/-- The store without variables. -/
def clear (s : Store) : Store :=
  { s with entries := [] }

/-- Writes a variable under a name given as a value; steps behind the base key do not count. -/
def assign (s : Store) (name v : Value) : Except Error Store :=
  match Path.ofValue name with
  | .ok p => .ok (s.put p.base v)
  | .error e => .error e

/-- Writes a variable under a name. -/
def set (s : Store) (name : String) (v : Value) : Except Error Store :=
  s.assign (.str name) v

/-- The text of a scope or a key. -/
def partText (v : Value) : Except Error String := v.text

/-- Writes a variable under a scope and a key, which are trimmed and must not be blank. -/
def setScoped (s : Store) (scope key v : Value) : Except Error Store :=
  -- both texts are needed in any case, for the checks or for the message
  match partText scope, partText key with
  | .error e, _ => .error e
  | _, .error e => .error e
  | .ok scopeText, .ok keyText =>
    let isNull := fun (w : Value) => match w with
      | .null => true
      | _ => false
    if isNull scope || isNull key || isBlankText scopeText || isBlankText keyText then
      .error (.malformed (Error.variableName scopeText keyText) .blankScopeOrKey)
    else .ok (s.put (trim scopeText, trim keyText) v)

/-- Writes variables one after another. Names that are no expressions are skipped and given back;
another error ends the writing, with what was written before it. -/
def setAll (s : Store) : Entries → Except Error (List Value) × Store
  | [] => (.ok [], s)
  | (name, v) :: rest =>
    match s.assign name v with
    | .ok s => s.setAll rest
    | .error (.malformed _ _) =>
      match s.setAll rest with
      | (.ok skipped, s) => (.ok (name :: skipped), s)
      | failed => failed
    | .error e => (.error e, s)

/-- Writes the variables of a map, if one is given. -/
def update (s : Store) (given : Value) : Except Error (List Value) × Store :=
  if !given.isTruthy then (.ok [], s)
  else
    match given.asMap "items" with
    | .ok entries => s.setAll entries
    | .error e => (.error e, s)

/-- Removes the base variable of a name; tells whether it was present. -/
def remove (s : Store) (name : Value) : Except Error (Bool × Store) :=
  match Path.ofValue name with
  | .ok p => .ok (s.has p.base, s.erase p.base)
  | .error e => .error e

/-- Whether the base variable of a name is present; what is no name is absent. -/
def contains (s : Store) (name : Value) : Except Error Bool :=
  match name.asText? with
  | none => .ok false
  | some text =>
    match Path.parse text with
    | .ok p => .ok (s.has p.base)
    | .error (.malformed _ _) => .ok false
    | .error e => .error e

/-- The names of the variables, in the order of their first write. -/
def names (s : Store) : List String :=
  s.entries.map fun e => Error.variableName e.1.1 e.1.2

/-- The variables as a map from names to values. Of variables that share a name, the first gives
the place and the last the value. -/
def snapshot (s : Store) : Entries :=
  Entries.ofList (s.entries.map fun e => (.str (Error.variableName e.1.1 e.1.2), e.2))

/-- The value of a path: null if its variable is absent. -/
def read (s : Store) (p : Path) : Except Error Value :=
  match s.lookup? p.base with
  | none => .ok .null
  | some v => drill v p.segments

/-- The value of an expression. -/
def get (s : Store) (expression : Value) : Except Error Value :=
  match Path.ofValue expression with
  | .ok p => s.read p
  | .error e => .error e

/-- The store in a line. -/
def summary (s : Store) : String :=
  "VariableStore(" ++ natText s.size ++ " variable(s), policy=" ++ s.policy.text ++ ")"

end Store

end Runbook
