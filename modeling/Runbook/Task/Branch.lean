import Runbook.Condition
import Runbook.Run.World
import Runbook.Task.Kind

/-!
# Branching

A task that evaluates a formula, stores whether it holds, and may name the task to go on with.
-/

namespace Runbook

/-- The task to go on with, if the settings name one for a verdict. -/
def Task.branchTarget (t : Task) (satisfied : Bool) : Except Error (Option String) :=
  match t.setting (if satisfied then "on_true" else "on_false") with
  | .null => .ok none
  | v => v.text.map some

/-- Evaluates the formula of a task. -/
def Task.branch (t : Task) : Run Outcome := do
  let s ← Run.store
  match (Formula.ofMap t.settings).bind (·.evaluate s) with
  | .error (.condition fault) => return .failed ("Condition error: " ++ fault.message)
  | .error e => Run.fail e
  | .ok verdict =>
    Run.write (·.setScoped t.scope (.str "Result") (.bool verdict.satisfied))
    let next ← t.branchTarget verdict.satisfied
    let word := if verdict.satisfied then "true" else "false"
    return .done (word ++ ": " ++ verdict.reason) next

end Runbook
