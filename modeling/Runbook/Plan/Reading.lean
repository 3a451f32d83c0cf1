import Runbook.Plan.Basic
import Runbook.Policy
import Runbook.Value.Members

/-!
# Reading plans

The plan that a map describes.

* `Task.ofValue`: a task at a position; nested tasks are numbered below it.
* `Plan.ofValue`: the whole plan. Tasks are read first, then their ids are compared, and after
  that come the policy, the variables and the connections.
-/

namespace Runbook

open Runbook.Text

/-- The error of a faulty configuration. -/
def configError (fault : ConfigFault) : Error := .config fault

namespace Task

/-- The entries that all tasks share. -/
def sharedFields : List String := ["id", "type", "name", "scope", "when", "on_error", "tasks"]

/-- The settings among a task's entries. -/
def settingsOf (entries : Entries) : Entries :=
  entries.filter fun e => !sharedFields.any fun name => e.1.isText name

/-- The position of a nested task. -/
def nestedPosition (position : String) (index : Nat) : String :=
  position ++ "_" ++ natText (index + 1)

/-- What a task's entries say about failing. -/
def readOnError (position : String) (entries : Entries) : Except Error OnError :=
  let given := entries.fieldOr "on_error" (.str "stop")
  match given.asText?.bind OnError.ofText? with
  | some e => .ok e
  | none => do throw (configError (.invalidOnError position (← given.text)))

/-- The task of entries whose nested tasks have been read. -/
def ofEntries (position : String) (entries : Entries) (onError : OnError) (nested : List Task) :
    Except Error Task := do
  let id ← (entries.fieldOr "id" (.str position)).text
  let type ← (entries.field "type").text
  return .mk id type (entries.field "name") (entries.field "scope") (entries.field "when") onError
    (settingsOf entries) nested

mutual

/-- The task that a value describes at a position. -/
def ofValue (position : String) : Value → Except Error Task
  | .dict entries =>
    if !Entries.hasField entries "type" then
      .error (configError (.taskWithoutType position))
    else
      match readOnError position entries with
      | .error e => .error e
      | .ok onError =>
        match nestedIn position entries with
        | .error e => .error e
        | .ok nested => ofEntries position entries onError nested
  | _ => .error (configError (.taskNotDictionary position))

/-- The tasks nested in the entry named `tasks`, if it counts as given. -/
def nestedIn (position : String) : List (Value × Value) → Except Error (List Task)
  | [] => .ok []
  | (k, v) :: rest =>
    if k.isText "tasks" then nestedOf position v else nestedIn position rest

/-- The tasks that a value holds. -/
def nestedOf (position : String) : Value → Except Error (List Task)
  | .list items => allOf position 0 items
  | .tuple items => allOf position 0 items
  | .object ⟨_, _, _, _, _, some (.items members)⟩ => allOf position 0 members
  | .rootElement d =>
    if (Value.rootElement d).isTruthy then
      .error (configError (.taskNotDictionary (nestedPosition position 0)))
    else .ok []
  | v =>
    if !v.isTruthy then .ok []
    else
      match v.items with
      | .error e => .error e
      | .ok [] => .ok []
      -- keys, characters and bytes are no tasks, so the first of them is at fault already
      | .ok _ => .error (configError (.taskNotDictionary (nestedPosition position 0)))

/-- The tasks of values, numbered from an index on. -/
def allOf (position : String) (index : Nat) : List Value → Except Error (List Task)
  | [] => .ok []
  | v :: vs =>
    match ofValue (nestedPosition position index) v with
    | .error e => .error e
    | .ok t =>
      match allOf position (index + 1) vs with
      | .error e => .error e
      | .ok ts => .ok (t :: ts)

end

end Task

/-- The tasks of a plan, numbered from an index on. -/
def topTasks (index : Nat) : List Value → Except Error (List Task)
  | [] => .ok []
  | v :: vs => do
    let t ← Task.ofValue (natText (index + 1)) v
    let ts ← topTasks (index + 1) vs
    return t :: ts

/-- Texts by their code points, each once. -/
def sortedTexts (texts : List String) : List String :=
  (texts.mergeSort fun a b => decide (a ≤ b)).eraseDups

/-- The ids that more than one task has. -/
def duplicateIds (tasks : List Task) : List String :=
  let ids := tasks.map (·.id)
  sortedTexts (ids.filter fun i => 1 < ids.count i)

/-- The settings of a connection. -/
def connectionOf (name v : Value) : Except Error ConnectionSettings :=
  match v.dict? with
  | some entries =>
    if (entries.field "driver").isTruthy then
      .ok ⟨name, entries.field "driver", (entries.field "options").orElse (.dict [])⟩
    else do throw (configError (.connectionWithoutDriver (← name.text)))
  | none => do throw (configError (.connectionWithoutDriver (← name.text)))

/-- The connection that a pair describes, with its name. -/
def namedConnection (item : Value) : Except Error (Value × ConnectionSettings) := do
  let (name, settings) ← item.unpackPair
  let connection ← connectionOf name settings
  match name.unhashable? with
  | some typeName => throw (.kind (.notHashable typeName))
  | none => return (name, connection)

/-- Connections with one more; one that has its name already is replaced in its place. -/
def putConnection (connections : List (Value × ConnectionSettings))
    (c : Value × ConnectionSettings) : List (Value × ConnectionSettings) :=
  match connections with
  | [] => [c]
  | (name, old) :: rest =>
    if name.sameKey c.1 then (name, c.2) :: rest else (name, old) :: putConnection rest c

/-- The connections of a plan. -/
def connectionsOf (v : Value) : Except Error (List (Value × ConnectionSettings)) := do
  let items ← (v.orElse (.dict [])).pairItems
  let connections ← items.mapM namedConnection
  return connections.foldl putConnection []

/-- The policy of a plan; a value that names none is a fault of the configuration. -/
def policyOf (v : Value) : Except Error MissingPolicy :=
  match MissingPolicy.parse v with
  | .ok p => .ok p
  | .error e => .error (if e.isValueError then configError (.invalidPolicy e.message) else e)

/-- The plan that a map describes. -/
def Plan.ofValue (v : Value) : Except Error Plan := do
  let entries ← v.asMap "get"
  let tasks ← match (entries.field "tasks").orElse (.list []) with
    | .list items => topTasks 0 items
    | _ => throw (configError .tasksNotList)
  let duplicates := duplicateIds tasks
  if !duplicates.isEmpty then throw (configError (.duplicateIds duplicates))
  let policy ← policyOf (entries.fieldOr "missing_variables" (.str "keep_as_is"))
  let vars ← match (entries.field "vars").orElse (.dict []) with
    | .dict vars => pure vars
    | _ => throw (configError .varsNotDictionary)
  return {
    name := entries.fieldOr "name" (.str "Workflow")
    tasks
    policy
    maxWorkers := entries.field "max_workers"
    clearOnFinish := entries.fieldOr "clear_on_finish" (.bool false)
    connections := ← connectionsOf (entries.field "connections")
    vars }

end Runbook
