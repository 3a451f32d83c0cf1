import Runbook.Run.World
import Runbook.Task.Kind
import Runbook.Value.Members

/-!
# Maintaining variables

A task that removes some variables, clears all of them, or exports them as JSON.

* `Store.removeAll`: removes names one after another; what is no name ends it.
* `Task.exportAll`: writes the variables to a file. A value that JSON has no form for ends the
  writing, with what was written before it.
-/

namespace Runbook

open Runbook.Text

/-- Removes names one after another, and tells which were there. An error ends the removing, with
what was removed before it. -/
def Store.removeAll (s : Store) : List Value → Except Error (List Value) × Store
  | [] => (.ok [], s)
  | name :: rest =>
    match s.remove name with
    | .error e => (.error e, s)
    | .ok (present, s) =>
      match s.removeAll rest with
      | (.ok removed, s) => (.ok (if present then name :: removed else removed), s)
      | failed => failed

/-- A number of variables. -/
def countText (n : Nat) : String := natText n ++ " variable(s)"

namespace Task

/-- Removes the variables named in the settings. -/
def removeNames (t : Task) : Run Outcome := do
  let names ← (← t.required "names").items
  let removed ← Run.onStore (·.removeAll names)
  let shown := ", ".intercalate (removed.map fun v => (v.asText?).getD "")
  return .done ("Removed " ++ countText removed.length ++ ": " ++ shown) none

/-- Removes every variable. -/
def clearAll : Run Outcome := do
  let count := (← Run.store).size
  Run.onStore fun s => (.ok (), s.clear)
  return .done ("Cleared " ++ countText count) none

/-- Writes the variables to a file as indented JSON. -/
def exportAll (t : Task) (env : Surroundings) : Run Outcome := do
  let path ← (← Run.store).resolve (← (← t.required "file").text)
  let target := env.locate path
  let snapshot := (← Run.store).snapshot
  let written := Json.indented 0 (.dict snapshot)
  match ← Run.attempt (Run.writeFile target (.text written.chars)) with
  | .error e =>
    if e.isFileError then return .failed ("Failed to export variables: " ++ e.message)
    Run.fail e
  | .ok () =>
    match written.failure with
    | some e => Run.fail e
    | none =>
      return .done ("Exported " ++ countText snapshot.length ++ " to " ++ target.text) none

/-- Does what the settings ask for with the variables. -/
def maintain (t : Task) (env : Surroundings) : Run Outcome := do
  let action ← t.required "action"
  if action.isText "remove" then t.removeNames
  else if action.isText "clear" then clearAll
  else t.exportAll env

end Task

end Runbook
