import Runbook.Task.Assign
import Runbook.Task.Branch
import Runbook.Task.CallProcedure
import Runbook.Task.Check
import Runbook.Task.FanOut
import Runbook.Task.Maintain
import Runbook.Task.ReadFile

/-!
# Running plans

Running tasks, and the order in which the tasks of a plan run.

* `Task.skipReason`: why a task's guard keeps it from running.
* `Task.run`: one task with the tasks nested in it: it is skipped, or told to begin, executed and
  told to have ended. Errors of expressions and variables are failures of the task.
* `Plan.flow`: the tasks of a plan in order, except where a task names the one to go on with.
* `Plan.run`: a whole run with its report. Tasks are checked before the first of them runs.
-/

namespace Runbook

open Runbook.Text Runbook.Display

/-- The texts of a guard that keep a task from running. -/
def falseGuards : List String := ["", "false", "0", "no", "null", "none"]

/-- The text of a guard's expression: a single placeholder is the value it leads to, any other
text is a template. -/
def guardText (s : Store) (expression : String) : Except Error String :=
  match Template.single? expression with
  | some inner => do (← s.get (.str inner)).stringify
  | none => s.resolve expression

namespace Task

/-- Why a task is skipped, if it is. -/
def skipReason (t : Task) (s : Store) : Except Error (Option String) :=
  match t.guard with
  | .null => .ok none
  | .bool b => .ok (if b then none else some "when: false")
  | v => do
    let expression := trim (← v.text)
    let shown ← guardText s expression
    -- what is compared is trimmed and in lower case, what is shown is not
    if falseGuards.contains (lower (trim shown)) then
      return some ("when: " ++ expression ++ " -> '" ++ shown ++ "'")
    return none

/-- What a task does, without its guard. `nested` runs the tasks nested in it. -/
def execute (t : Task) (env : Surroundings) (workers : Value)
    (nested : Option (Run (List NestedResult))) : Run Outcome := do
  match ← TaskKind.ofName t.type with
  | .assign => t.assign
  | .maintain => t.maintain env
  | .branch => t.branch
  | .readFile => t.readFile env
  | .callProcedure => t.callProcedure env
  | .fanOut => fanOut workers nested

/-- The length of time that the clock of a run shows. -/
def noTime : Value := .float (.zero false)

/-- Tells how a task ended, and counts it. -/
def conclude (t : Task) (depth : Nat) (outcome : Outcome) : Run Outcome := do
  match outcome with
  | .done output _ =>
    Run.tell (.result t true noTime (some output) none depth)
    Run.countCompleted
  | .failed reason =>
    Run.tell (.result t false noTime none (some reason) depth)
    Run.countFailed
  return outcome

/-- The outcome of a computation whose errors of expressions and variables are failures. -/
def settle (body : Run Outcome) : Run Outcome := do
  match ← Run.attempt body with
  | .ok outcome => return outcome
  | .error e =>
    if e.isStoreError then return .failed e.message
    Run.fail e

/-- Tells that a task begins, does it, and tells how it ended. -/
def announce (t : Task) (depth : Nat) (body : Run Outcome) : Run Outcome := do
  Run.tell (.start t depth)
  t.conclude depth (← settle body)

/-- Skips a task. -/
def skip (t : Task) (depth : Nat) (reason : String) : Run Outcome := do
  Run.tell (.skipped t reason depth)
  Run.countSkipped
  return .done "skipped" none

/-- Does a task unless its guard keeps it from running. -/
def guarded (t : Task) (depth : Nat) (body : Run Outcome) : Run Outcome := do
  match t.skipReason (← Run.store) with
  | .ok (some reason) => t.skip depth reason
  | .ok none => t.announce depth body
  | .error e =>
    if e.isStoreError then t.announce depth (pure (.failed ("when: " ++ e.message)))
    else Run.fail e

mutual

/-- Runs a task. -/
def run (env : Surroundings) (workers : Value) (depth : Nat) : Task → Run Outcome
  | .mk id type name scope guard onError settings nested =>
    let t := Task.mk id type name scope guard onError settings nested
    t.guarded depth (t.execute env workers (some (runAll env workers (depth + 1) nested)))

/-- Runs tasks one after another, whatever the others come to. -/
def runAll (env : Surroundings) (workers : Value) (depth : Nat) :
    List Task → Run (List NestedResult)
  | [] => pure []
  | t :: ts =>
    (Run.attempt (run env workers depth t)).bind fun result =>
      (runAll env workers depth ts).bind fun results => pure ((t, result) :: results)

end

end Task

namespace Plan

/-- The place of the task with an id. -/
def place? (plan : Plan) (id : String) : Option Nat :=
  plan.tasks.findIdx? (·.id == id)

/-- The task to go on with, if an outcome names one. -/
def nextOf : Outcome → Option String
  | .done _ (some "") => none
  | .done _ next => next
  | .failed _ => none

/-- Where to go on behind a task at a place. -/
def placeAfter (plan : Plan) (i : Nat) (outcome : Outcome) : Except Error Nat :=
  match nextOf outcome with
  | none => .ok (i + 1)
  | some id =>
    match plan.place? id with
    | some j => .ok j
    | none => .error (.task (.gotoNotFound id (plan.tasks.map (·.id))))

/-- The error that a failed task ends a run with, if it does. -/
def stopError? (t : Task) (outcome : Outcome) : Except Error (Option Error) :=
  match outcome, t.onError with
  | .failed reason, .stop =>
    t.displayName.text.map fun name =>
      some (.task (.failed name (if reason == "" then "Task failed" else reason)))
  | _, _ => .ok none

/-- Runs one task of a plan, and tells where to go on. -/
def step (plan : Plan) (env : Surroundings) (i : Nat) (t : Task) : Run Nat := do
  let outcome ← t.run env plan.maxWorkers 0
  match ← stopError? t outcome with
  | some e => Run.fail e
  | none => plan.placeAfter i outcome

/-- Runs the tasks of a plan from a place on, and tells whether the end was reached within so many
tasks. -/
def flow (plan : Plan) (env : Surroundings) : (fuel : Nat) → (place : Nat) → Run Bool
  | fuel, i =>
    match plan.tasks[i]?, fuel with
    | none, _ => pure true
    | some _, 0 => pure false
    | some t, fuel + 1 => (plan.step env i t).bind fun j => flow plan env fuel j

/-- What a run came to. -/
structure Report where
  completed : Nat
  failed : Nat
  skipped : Nat
  error : Option String
  snapshot : Entries

/-- Whether a run succeeded: it did if it ended without an error. -/
def Report.success (r : Report) : Bool := r.error.isNone

/-- What a report says of an error. -/
def errorText : Error → String
  | .interrupt => "interrupted"
  | .task fault => fault.message
  | e => "Unexpected error: " ++ e.message

/-- The notice of an error. -/
def errorNotice (e : Error) : Notice :=
  if e.isInterrupt then .interrupted else .error (errorText e)

/-- The report of a run that has ended. -/
def conclude (plan : Plan) (error : Option String) : Run Report := fun w =>
  let report : Report := ⟨w.completed, w.failed, w.skipped, error, w.store.snapshot⟩
  let tail : Run Report := do
    Run.tell (.summary report.completed report.failed report.skipped Task.noTime)
    if plan.clearOnFinish.isTruthy then Run.onStore fun s => (.ok (), s.clear)
    return report
  tail w

/-- Checks the tasks of a plan and runs them. -/
def perform (plan : Plan) (env : Surroundings) (fuel : Nat) : Run Bool := do
  Task.checkAll plan.tasks
  plan.flow env fuel 0

/-- Runs a plan; there is no report if it has not ended after so many tasks. -/
def run (plan : Plan) (env : Surroundings) (fuel : Nat) : Run (Option Report) := do
  Run.tellHeader plan
  match ← Run.attempt (plan.perform env fuel) with
  | .ok true => return some (← plan.conclude none)
  -- the fuel has run out
  | .ok false => return none
  | .error e =>
    Run.tell (errorNotice e)
    return some (← plan.conclude (some (errorText e)))

/-- The variables that a run of a plan begins with: those at hand, and over them its own. Names
that are no expressions are skipped, which takes a text to tell of. -/
def seed (plan : Plan) (given : Option Store) : Except Error Store :=
  let s := match given with
    | some s => { s with policy := plan.policy }
    | none => Store.empty plan.policy
  match s.setAll plan.vars with
  | (.ok skipped, s) => (Notice.nameTexts 0 skipped).map fun _ => s
  | (.error e, _) => .error e

/-- Openers with those at hand in the place of others of their names. -/
def withReady (openers : List (Value × Opener)) (ready : List (String × Connection)) :
    List (Value × Opener) :=
  ready.foldl (fun all (name, c) =>
    if all.any (·.1.isText name) then
      all.map fun o => if o.1.isText name then (o.1, .ready c) else o
    else all ++ [(.str name, .ready c)]) openers

/-- What a run of a plan finds, with connections at hand. -/
def surroundings (plan : Plan) (base : Location) (ready : List (String × Connection))
    (modules : List (String × Connection)) : Surroundings :=
  let openers := plan.connections.map fun (name, settings) => (name, Opener.module settings)
  ⟨base, withReady openers ready, modules⟩

end Plan

end Runbook
