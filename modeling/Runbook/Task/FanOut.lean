import Runbook.Run.World
import Runbook.Task.Kind

/-!
# Running nested tasks

A task that runs the tasks nested in it, all of them, and fails if one failed that asks to stop.

* `Task.joinOutcomes`: what the outcomes of nested tasks come to together. Failures are told in
  the order of their texts, so the order in which the tasks ended does not show.
-/

namespace Runbook

open Runbook.Text Runbook.Display

/-- A nested task with what running it came to. -/
abbrev NestedResult := Task × Except Error Outcome

/-- The error of a number of workers that is not positive. -/
def checkWorkers (v : Value) : Except Error Unit :=
  let positive := fun (holds : Bool) =>
    if holds then Except.ok () else Except.error (Error.value .maxWorkers)
  match v with
  | .null => .ok ()
  | .bool b => positive b
  | .int n => positive (decide (0 < n))
  | .float x => positive (!x.less (.zero false) && !x.same (.zero false))
  | .decimal (.finite negative coefficient _) => positive (!negative && coefficient != 0)
  | .decimal (.infinity negative) => positive (!negative)
  | v => .error (.kind (.notOrdered "<=" v.typeName "int"))

namespace Task

/-- What a nested task adds to the failures of its group: a raised error always counts, a failed
outcome only if the task asks to stop. -/
def nestedFailure? (r : NestedResult) : Except Error (Option String) :=
  let told := fun (reason : String) =>
    r.1.displayName.text.map fun name => some (name ++ ": " ++ reason)
  match r.2 with
  | .error e => told e.message
  | .ok (.done _ _) => .ok none
  | .ok (.failed reason) =>
    match r.1.onError with
    | .stop => told reason
    | .proceed => .ok none

/-- Whether a nested task was interrupted. -/
def wasInterrupted (r : NestedResult) : Bool :=
  match r.2 with
  | .error e => e.isInterrupt
  | .ok _ => false

/-- What the results of nested tasks come to together. -/
def joinOutcomes (results : List NestedResult) : Except Error Outcome := do
  if results.any wasInterrupted then throw .interrupt
  let failures ← results.mapM nestedFailure?
  let told := failures.filterMap fun f => f
  if told.isEmpty then
    return .done ("Completed " ++ natText results.length ++ " task(s)") none
  return .failed (natText told.length ++ " of " ++ natText results.length ++
    " task(s) failed: " ++ "; ".intercalate (Notice.sortTexts told))

/-- Runs nested tasks, if there is a way to run them. -/
def fanOut (workers : Value) (nested : Option (Run (List NestedResult))) : Run Outcome := do
  match nested with
  | none => return .failed "Parallel task requires a runner"
  | some runAll =>
    checkWorkers workers
    joinOutcomes (← runAll)

end Task

end Runbook
