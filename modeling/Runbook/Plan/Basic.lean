import Runbook.Value.Text

/-!
# Plans

A workflow as it is configured: tasks, some with tasks nested in them, the policy for absent
variables, named connections and variables.

* `Task`: one task. Settings are the entries of its map that all tasks do not share.
* `Task.scope`: where a task writes, `Task` and its id if it names no scope.
* `Plan`: the whole workflow.
-/

namespace Runbook

/-- What a failed task means for what comes behind it. -/
inductive OnError
  | stop
  | proceed
  deriving DecidableEq, Repr

/-- The text of what a failed task means. -/
def OnError.text : OnError → String
  | .stop => "stop"
  | .proceed => "continue"

/-- The meaning of a text. -/
def OnError.ofText? (s : String) : Option OnError :=
  [OnError.stop, .proceed].find? (·.text == s)

/-- A task of a workflow. `guard` is the value of its `when`. -/
inductive Task
  | mk (id type : String) (name scope guard : Value) (onError : OnError) (settings : Entries)
    (nested : List Task)

namespace Task

instance : Inhabited Task := ⟨.mk "" "" .null .null .null .stop [] []⟩

/-- The id of a task. -/
def id : Task → String
  | .mk i _ _ _ _ _ _ _ => i

/-- The name of a task's type. -/
def type : Task → String
  | .mk _ t _ _ _ _ _ _ => t

/-- The name given to a task. -/
def name : Task → Value
  | .mk _ _ n _ _ _ _ _ => n

/-- The scope given to a task. -/
def givenScope : Task → Value
  | .mk _ _ _ s _ _ _ _ => s

/-- The guard of a task: null if there is none. -/
def guard : Task → Value
  | .mk _ _ _ _ g _ _ _ => g

/-- What failing means for a task. -/
def onError : Task → OnError
  | .mk _ _ _ _ _ e _ _ => e

/-- The settings of a task's own. -/
def settings : Task → Entries
  | .mk _ _ _ _ _ _ s _ => s

/-- The tasks nested in a task. -/
def nested : Task → List Task
  | .mk _ _ _ _ _ _ _ ts => ts

/-- The scope that a task writes under. -/
def scope (t : Task) : Value :=
  t.givenScope.orElse (.str ("Task" ++ t.id))

/-- The name that a task is shown under. -/
def displayName (t : Task) : Value :=
  t.name.orElse (.str (t.type ++ " #" ++ t.id))

end Task

/-- A named connection: the module that opens it, and the options it is opened with. -/
structure ConnectionSettings where
  name : Value
  module : Value
  options : Value

/-- A workflow. -/
structure Plan where
  name : Value
  tasks : List Task
  policy : MissingPolicy
  maxWorkers : Value
  clearOnFinish : Value
  connections : List (Value × ConnectionSettings)
  vars : Entries

end Runbook
