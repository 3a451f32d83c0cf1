import Runbook.Condition
import Runbook.Procedure.Call
import Runbook.Task.Kind

/-!
# Checking tasks

What must be true of a task's settings before a run begins.

* `TaskKind.check`: the settings of one task.
* `Task.check`: a task and the tasks nested in it, outer ones first. A fault is told with the name
  of its task.
-/

namespace Runbook

/-- The error of faulty settings. -/
def settingsError (fault : SettingsFault) : Error := .value (.settings fault)

/-- Demands something of settings. -/
def demand (holds : Bool) (fault : SettingsFault) : Except Error Unit :=
  if holds then .ok () else .error (settingsError fault)

/-- The formats of values that are set. -/
def formatNames : List String := ["text", "json", "xml"]

/-- What can be done to variables. -/
def actionNames : List String := ["clear", "export", "remove"]

/-- Whether a value is one of several texts. -/
def isOneOf (v : Value) (texts : List String) : Bool :=
  texts.any fun s => v.isText s

/-- Checks the settings of a task that sets a variable. -/
def checkAssign (t : Task) : Except Error Unit := do
  demand (t.setting "var").isTruthy .setWithoutVar
  demand (Entries.hasField t.settings "value") .setWithoutValue
  let format := t.settingOr "format" (.str "text")
  if !isOneOf format formatNames then throw (settingsError (.setFormat (← format.text)))

/-- Checks the settings of a task that maintains the variables. -/
def checkMaintain (t : Task) : Except Error Unit := do
  let action := t.setting "action"
  demand action.isTruthy .variablesWithoutAction
  if !isOneOf action actionNames then throw (settingsError (.variablesAction (← action.text)))
  if action.isText "remove" then demand (t.setting "names").list?.isSome .removeWithoutNames
  if action.isText "export" then demand (Entries.hasField t.settings "file") .exportWithoutFile

/-- Checks the settings of a task that branches. -/
def checkBranch (t : Task) : Except Error Unit := do
  demand (Entries.hasField t.settings "groups") .ifWithoutGroups
  match Formula.ofMap t.settings with
  | .ok _ => return ()
  | .error (.condition fault) => throw (settingsError (.ifGroups fault))
  | .error e => throw e

/-- The number of rows read at once, if no other is asked for. -/
def defaultBatch : Int := 1000

/-- The whole number that a value is; truth values are zero and one. -/
def wholeNumber? : Value → Option Int
  | .int n => some n
  | .bool b => some (if b then 1 else 0)
  | _ => none

/-- Checks the settings of a task that reads a file. -/
def checkReadFile (t : Task) : Except Error Unit := do
  demand (t.setting "file").isTruthy .fileWithoutFile
  let plainColumns := match t.setting "columns" with
    | .null => true
    | v => v.list?.isSome
  demand plainColumns .fileColumns
  demand (!((t.setting "keep_document").isTruthy && (t.setting "jsonl").isTruthy)) .fileKeepsLines
  let batch := t.settingOr "batch_size" (.int defaultBatch)
  demand ((wholeNumber? batch).any (1 ≤ ·)) .fileBatchSize

/-- Checks one parameter of a procedure. -/
def checkParameter (v : Value) : Except Error Unit :=
  match v.dict? with
  | some entries => (Parameter.ofMap entries).map fun _ => ()
  | none => .error (settingsError .procedureParam)

/-- Checks the settings of a task that calls a procedure. -/
def checkCallProcedure (t : Task) : Except Error Unit := do
  demand (t.setting "procedure").isTruthy .procedureWithoutName
  demand (t.setting "connection").isTruthy .procedureWithoutConnection
  match t.settingOr "params" (.list []) with
  | .list params => params.forM checkParameter
  | _ => throw (settingsError .procedureParams)

/-- Checks a task that runs the tasks nested in it. -/
def checkFanOut (t : Task) : Except Error Unit :=
  demand (!t.nested.isEmpty) .parallelWithoutTasks

/-- Checks the settings of a task of a kind. -/
def TaskKind.check (kind : TaskKind) (t : Task) : Except Error Unit :=
  match kind with
  | .assign => checkAssign t
  | .maintain => checkMaintain t
  | .branch => checkBranch t
  | .readFile => checkReadFile t
  | .callProcedure => checkCallProcedure t
  | .fanOut => checkFanOut t

namespace Task

/-- Checks a task alone. A fault of a value is a fault of the task. -/
def checkSelf (t : Task) : Except Error Unit :=
  match (TaskKind.ofName t.type).bind (·.check t) with
  | .ok () => .ok ()
  | .error e =>
    if e.isValueError then
      t.displayName.text.bind fun name => .error (.task (.invalid name e.message))
    else .error e

mutual

/-- Checks a task and the tasks nested in it. -/
def check : Task → Except Error Unit
  | .mk id type name scope guard onError settings nested =>
    match (Task.mk id type name scope guard onError settings nested).checkSelf with
    | .error e => .error e
    | .ok () => checkAll nested

/-- Checks tasks one after another. -/
def checkAll : List Task → Except Error Unit
  | [] => .ok ()
  | t :: ts =>
    match t.check with
    | .error e => .error e
    | .ok () => checkAll ts

end

end Task

end Runbook
