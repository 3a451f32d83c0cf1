import Runbook.Run.World
import Runbook.Task.Kind
import Runbook.Value.Parsing

/-!
# Setting a variable

A task that stores a value. A text is a template; it may be read as JSON or XML before it is
stored. A name with a point or a bracket in it is a full name, any other is a key in the task's
scope.
-/

namespace Runbook

/-- A value read in a format. Only text is read as JSON. -/
def readAs (format v : Value) : Except Error Value :=
  if format.isText "json" then
    match v.asText? with
    | some _ => v.parseJson
    | none => .ok v
  else if format.isText "xml" then do (Value.str (← v.text)).parseXml
  else .ok v

/-- Whether a name is a full name of a variable. -/
def isFullName (name : String) : Bool :=
  name.toList.any fun c => c == '.' || c == '['

/-- Stores a value for a task, and tells under which name. -/
def storeFor (t : Task) (name : String) (v : Value) : Run String := do
  if isFullName name then
    Run.write (·.set name v)
    return name
  Run.write (·.setScoped t.scope (.str name) v)
  return Error.variableName (← t.scope.text) name

/-- Sets a variable. -/
def Task.assign (t : Task) : Run Outcome := do
  let name ← (← t.required "var").text
  let given ← t.required "value"
  let format := t.settingOr "format" (.str "text")
  let plain ← (← Run.store).resolveValue given
  match readAs format plain with
  | .ok v => return .done ("Set " ++ (← storeFor t name v)) none
  | .error e =>
    if e.isValueError then
      return .failed ("Cannot parse " ++ (← format.text) ++ " value: " ++ e.message)
    Run.fail e

end Runbook
