import Runbook.Run.World
import Runbook.Task.Kind

/-!
# Calling a stored procedure

A task that calls a procedure over a named connection and stores what came back.

* `Connection.transact`: the call, the commit behind it or the rollback instead of it, and the
  closing of the connection, which comes last in any case.
* `Task.callProcedure`: the whole task. Nothing is stored before the connection is closed.
-/

namespace Runbook

open Runbook.Text

/-- How a call was settled. -/
inductive Settlement
  | kept (r : Response)
  | undone (reason : String)

namespace Connection

/-- Settles a failed call. An interruption is not taken; other errors are rolled back, if the
connection can do that. -/
def undo (c : Connection) (request : Request) (uses : List Use) (e : Error) :
    Except Error Settlement × List Use :=
  if e.isInterrupt then (.error e, uses ++ [.close])
  else
    match request.qualifiedName with
    | .error other => (.error other, uses ++ [.close])
    | .ok name =>
      let back := if c.hasRollback then [Use.rollback] else []
      (.ok (.undone ("Procedure " ++ name ++ " failed: " ++ e.message)), uses ++ back ++ [.close])

/-- Calls a procedure, commits if asked to, and closes the connection. -/
def transact (c : Connection) (request : Request) (commit : Bool) :
    Except Error Settlement × List Use :=
  match c.execute request with
  | (.error e, uses) => c.undo request uses e
  | (.ok r, uses) =>
    if !commit then (.ok (.kept r), uses ++ [.close])
    else
      match c.commit with
      | .ok () => (.ok (.kept r), uses ++ [.commit, .close])
      | .error e => c.undo request (uses ++ [.commit]) e

end Connection

namespace Task

/-- The entries of a parameter with the template in its value resolved. -/
def resolveParameter (s : Store) (v : Value) : Except Error Parameter := do
  let entries ← v.entriesOf
  let given := Entries.field entries "value"
  match given.asText? with
  | some _ => Parameter.ofMap (Entries.insert entries (.str "value") (← s.resolveValue given))
  | none => Parameter.ofMap entries

/-- What the settings of a task ask to call. -/
def request (t : Task) (s : Store) : Except Error Request := do
  let given ← (t.settingOr "params" (.list [])).items
  let params ← given.mapM (resolveParameter s)
  let name ← s.resolve (← (← t.required "procedure").text)
  return ⟨name, t.setting "schema", params⟩

/-- Opens the connection that the settings name. -/
def openConnection (t : Task) (env : Surroundings) : Run Connection := do
  env.connect (← (← t.required "connection").text)

/-- Stores what came back from a call. -/
def publish (t : Task) (name : String) (r : Response) : Run Outcome := do
  Run.onStore (·.setKeys t.scope r.publication)
  return .done (name ++ ": " ++ natText r.sets.length ++ " result set(s), " ++
    natText r.outputs.length ++ " out value(s), update count " ++ intText r.updates) none

/-- Calls a procedure over an open connection. -/
def callOver (t : Task) (c : Connection) (request : Request) : Run Outcome := do
  let commit := (t.settingOr "commit" (.bool true)).isTruthy
  let (settled, uses) := c.transact request commit
  Run.note uses
  match ← settled with
  | .undone reason => return .failed reason
  | .kept r => t.publish (← request.qualifiedName) r

/-- Calls a procedure and stores what came back. -/
def callProcedure (t : Task) (env : Surroundings) : Run Outcome := do
  match t.request (← Run.store) with
  | .error e =>
    if e.isValueError then return .failed e.message
    Run.fail e
  | .ok request =>
    let _ ← databaseKind (t.setting "database_type")
    match ← Run.attempt (t.openConnection env) with
    | .error e =>
      if e.isInterrupt then Run.fail e
      else if e.isValueError then return .failed e.message
      else return .failed ("Connection failed: " ++ e.message)
    | .ok c => t.callOver c request

end Task

end Runbook
