import Runbook.Policy
import Runbook.Procedure.Connection
import Runbook.Template

/-!
# Operations on a store

What a store is asked to do, as data: writes, removals, the choice of a policy, and reads. An
operation gives an answer or an error, and the store behind it.

* `Store.setRows`: writes the rows of a result under a name.
* `Store.Operation`: one operation with its arguments.
* `Store.perform`: the answer of an operation and the store behind it.
* `Store.run`: the store behind operations one after another, whether they fail or not.
-/

namespace Runbook.Store

/-- Writes the rows of a result under a name; the rows are read before the name is. -/
def setRows (s : Store) (name : Value) (r : ResultSet) : Except Error Store :=
  match rowsOf r with
  | .error e => .error e
  | .ok rows => s.assign name (.list (rows.map .dict))

/-- The store with the policy that a value names. -/
def setPolicy (s : Store) (given : Value) : Except Error Store :=
  match MissingPolicy.parse given with
  | .error e => .error e
  | .ok p => .ok { s with policy := p }

/-- What a store is asked to do. -/
inductive Operation
  | set (name v : Value)
  | setScoped (scope key v : Value)
  | update (given : Value)
  | setRows (name : Value) (r : ResultSet)
  | remove (name : Value)
  | clear
  | setPolicy (given : Value)
  | lookup (scope key : String) (default : Value)
  | has (scope key : String)
  | contains (name : Value)
  | names
  | size
  | summary
  | snapshot
  | policy
  | get (expression : Value)
  | resolve (template : Value)

/-- The outcome of a write: null and the written store, or an error and the store as it was. -/
def afterWrite (s : Store) : Except Error Store → Except Error Value × Store
  | .ok t => (.ok .null, t)
  | .error e => (.error e, s)

/-- The answer of an operation and the store behind it. -/
def perform (s : Store) : Operation → Except Error Value × Store
  | .set name v => s.afterWrite (s.assign name v)
  | .setScoped scope key v => s.afterWrite (s.setScoped scope key v)
  | .update given =>
    let (skipped, s) := s.update given
    (skipped.map .list, s)
  | .setRows name r => s.afterWrite (s.setRows name r)
  | .remove name =>
    match s.remove name with
    | .ok (present, s) => (.ok (.bool present), s)
    | .error e => (.error e, s)
  | .clear => (.ok .null, s.clear)
  | .setPolicy given => s.afterWrite (s.setPolicy given)
  | .lookup scope key default => (.ok ((s.lookup? (scope, key)).getD default), s)
  | .has scope key => (.ok (.bool (s.has (scope, key))), s)
  | .contains name => ((s.contains name).map .bool, s)
  | .names => (.ok (.list (s.names.map .str)), s)
  | .size => (.ok (.int s.size), s)
  | .summary => (.ok (.str s.summary), s)
  | .snapshot => (.ok (.dict s.snapshot), s)
  | .policy => (.ok (.policy s.policy), s)
  | .get expression => (s.get expression, s)
  | .resolve template => (s.resolveGiven template, s)

/-- The store behind operations one after another, whether they fail or not. -/
def run (s : Store) (ops : List Operation) : Store :=
  ops.foldl (fun s op => (s.perform op).2) s

end Runbook.Store
