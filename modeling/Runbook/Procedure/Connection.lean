import Runbook.Procedure.Call

/-!
# Database connections

A connection as what it does when it is used: each use gives its answer or an error, and leaves a
trace.

* `Connection`: the answers of a connection.
* `Use`: one use of a connection, as the trace shows it.
* `Connection.execute`: a call of a procedure: the cursor is closed however the call ends.
* `rowsOf`: the rows of a result as maps from column names to values.
-/

namespace Runbook

/-- One result behind a call: rows with the names of their columns, or a number of changed rows.
`after` tells what asking for the next result comes to. -/
structure ResultSet where
  columns : Option (List String)
  rows : Except Error (List (List Value))
  count : Option Int
  after : Except Error Unit

/-- What a connection answers. A cursor that cannot go to a next result stays at the first. -/
structure Connection where
  opening : Except Error Unit
  cursor : Except Error Unit
  call : Except Error Value
  results : List ResultSet
  hasNext : Bool
  commit : Except Error Unit
  hasRollback : Bool

/-- One use of a connection. -/
inductive Use
  | connect (name : String)
  | openWith (options : List (String × Value))
  | callProcedure (name : String) (arguments : List Value)
  | closeCursor
  | commit
  | rollback
  | close

/-- A row as a map; values without a column and columns without a value are left out, and of
columns of one name the last counts. -/
def rowEntries (columns : List String) (row : List Value) : Entries :=
  Entries.ofList ((columns.map Value.str).zip row)

/-- The rows of a result as maps. -/
def rowsOf (r : ResultSet) : Except Error (List Entries) :=
  r.rows.map fun rows => rows.map (rowEntries (r.columns.getD []))

namespace Connection

/-- The result sets and the number of changed rows, one result after another. -/
def walk (hasNext : Bool) : List ResultSet → Except Error (List (List Entries) × Int)
  | [] => .ok ([], 0)
  | r :: rest => do
    let sets ← match r.columns with
      | some _ => (rowsOf r).map fun rows => [rows]
      | none => .ok []
    let changed := match r.columns, r.count with
      | none, some n => if 0 ≤ n then n else 0
      | _, _ => 0
    if !hasNext then return (sets, changed)
    r.after
    let (more, others) ← walk hasNext rest
    return (sets ++ more, changed + others)

/-- What a call returns, with everything behind it. -/
def respond (c : Connection) (request : Request) : Except Error Response := do
  let returned ← c.call
  let (sets, updates) ← walk c.hasNext c.results
  let outputs ← Response.collect request.params returned
  return ⟨outputs, sets, updates⟩

/-- Calls a procedure over an open connection, and tells how the connection was used. -/
def execute (c : Connection) (request : Request) : Except Error Response × List Use :=
  match request.arguments with
  | .error e => (.error e, [])
  | .ok arguments =>
    match request.qualifiedName with
    | .error e => (.error e, [])
    | .ok name =>
      match c.cursor with
      | .error e => (.error e, [])
      | .ok () => (c.respond request, [.callProcedure name arguments, .closeCursor])

end Connection

end Runbook
