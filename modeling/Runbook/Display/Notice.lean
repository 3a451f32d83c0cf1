import Runbook.Display.Text
import Runbook.Plan.Basic
import Runbook.Text.Markup

/-!
# Notices

What a run tells its user, and the lines of console markup that show it.

* `Notice`: one thing told.
* `Notice.lines`: its lines. Text that comes from the user is escaped, but for the names of the
  connections above a run.
* `Console`: what shows the lines, and may refuse some.
-/

namespace Runbook.Display

open Runbook.Text

/-- A line on the console, or a block that the console lays out. -/
inductive Line
  | markup (s : String)
  | table (title : String) (columns : List String) (rows : List (List String))
  | panel (title content : String)

/-- An empty line. -/
def blankLine : Line := .markup ""

/-- One thing told to the user. Tasks are indented by their depth. -/
inductive Notice
  | header (plan : Plan)
  | start (task : Task) (depth : Int)
  | result (task : Task) (success : Bool) (duration : Value) (output error : Option String)
    (depth : Int)
  | skipped (task : Task) (reason : String) (depth : Int)
  | error (text : String)
  | interrupted
  | listing (entries : Entries)
  | summary (completed failed skipped : Int) (elapsed : Value)
  | refusal (content : String)

namespace Notice

/-- The icon of a task that runs. -/
def runningIcon : String := "[cyan][bold]•[/bold][/cyan]"

/-- The icon of a task that succeeded. -/
def successIcon : String := "[green][bold]✓[/bold][/green]"

/-- The icon of a task that failed. -/
def failedIcon : String := "[red][bold]✗[/bold][/red]"

/-- The icon of a task that was skipped. -/
def skippedIcon : String := "[yellow]⏭[/yellow]"

/-- The icon of a task with tasks nested in it. -/
def groupIcon : String := "[white]▶[/white]"

/-- The indentation of a depth. -/
def indent (depth : Int) : String :=
  String.ofList (List.replicate (4 * depth.toNat) ' ')

/-- The escaped text of a value that must be text. -/
def escaped (v : Value) : Except Error String :=
  match v.asText? with
  | some s => .ok (escapeMarkup s)
  | none => .error (.kind (.notText v.typeName))

/-- A dimmed text. -/
def dim (s : String) : String := "[dim]" ++ s ++ "[/dim]"

/-- The beginning of a task's line. -/
def taskLine (icon : String) (task : Task) (depth : Int) : Except Error String :=
  (escaped task.displayName).map fun name => indent depth ++ "[" ++ icon ++ "] " ++ name

/-- The texts of names that are all text, with what is wrong about the first that is none. -/
def nameTexts (position : Nat) : List Value → Except Error (List String)
  | [] => .ok []
  | v :: vs =>
    match v.asText? with
    | some s => (nameTexts (position + 1) vs).map (s :: ·)
    | none => .error (.kind (.notJoinable position v.typeName))

/-- Texts in the order of their code points. -/
def sortTexts (texts : List String) : List String :=
  texts.mergeSort fun a b => decide (a ≤ b)

/-- What is above a run of the settings of a plan, with the names of its connections in order. -/
def settingsLine (plan : Plan) (names : List String) : String :=
  let tasks := "Tasks: " ++ natText plan.tasks.length
  let policy := "Missing variables: " ++ plan.policy.text
  let connections :=
    if names.isEmpty then [] else ["Connections: " ++ ", ".intercalate (sortTexts names)]
  " | ".intercalate ([tasks, policy] ++ connections)

/-- The lines above a run. -/
def headerLines (plan : Plan) : Except Error (List Line) := do
  let name ← escaped plan.name
  let names ← nameTexts 0 (plan.connections.map (·.1))
  return [blankLine, .markup ("[bold]Workflow:[/bold] " ++ name),
    .markup (settingsLine plan names), blankLine]

/-- The lines of a task that has ended. -/
def resultLines (task : Task) (success : Bool) (duration : Value) (output error : Option String)
    (depth : Int) : Except Error (List Line) := do
  let time := "  " ++ dim (← durationText duration)
  if success then
    let line ← taskLine successIcon task depth
    let shown := match output with
      | none => ""
      | some "" => ""
      | some s => " " ++ dim ("-> " ++ escapeMarkup s)
    return [.markup (line ++ shown ++ time)]
  let line ← taskLine failedIcon task depth
  let reason := match error with
    | none => []
    | some "" => []
    | some s => [.markup (indent depth ++ "    [red]Error: " ++ escapeMarkup s ++ "[/red]")]
  return .markup (line ++ time) :: reason

/-- Text as the console shows it, without control characters that it drops. -/
def shownText (s : String) : String :=
  String.ofList (s.toList.filter (!isDropped ·))

/-- The row of a variable. -/
def variableRow (name : Value) (v : Value) : Except Error (List String) :=
  match name, name.asText? with
  | _, some s => (preview 60 v).map fun p => [shownText s, v.typeName, shownText p]
  | .bytes _, none => .error (.kind (.notText name.typeName))
  | _, none => .error (.noMember name.typeName "translate")

/-- The values that have an order among them, by a name; other values have none. -/
def orderClass? : Value → Option String
  | .bool _ => some "number"
  | .int _ => some "number"
  | .float _ => some "number"
  | .decimal _ => some "number"
  | .null => none
  | .object _ => none
  | .type _ => none
  | v => some v.typeName

/-- Whether values have an order among them; a single one needs none. -/
def areOrdered : List Value → Bool
  | a :: b :: rest =>
    (orderClass? a).isSome && (b :: rest).all fun v => orderClass? v == orderClass? a
  | _ => true

/-- Entries in the order of their names; names that are no text have no order among texts. -/
def sortEntries (entries : Entries) : Except Error Entries :=
  let plain := entries.filter fun e => e.1.asText?.isSome
  let other := entries.filter fun e => e.1.asText?.isNone
  match plain, other with
  | a :: _, b :: _ => .error (.kind (.notOrdered "<" b.1.typeName a.1.typeName))
  | _, [] =>
    .ok (plain.mergeSort fun a b => decide (a.1.asText?.getD "" ≤ b.1.asText?.getD ""))
  | [], a :: rest =>
    if areOrdered ((a :: rest).map (·.1)) then .ok other
    else .error (.kind (.notOrdered "<" a.1.typeName a.1.typeName))

/-- The table of variables. -/
def listingLines (entries : Entries) : Except Error (List Line) := do
  let sorted ← sortEntries entries
  let rows ← sorted.mapM fun e => variableRow e.1 e.2
  return [blankLine, .table "Variables" ["Name", "Type", "Value"] rows]

/-- The lines below a run. -/
def summaryLines (completed failed skipped : Int) (elapsed : Value) :
    Except Error (List Line) := do
  let time ← durationText elapsed
  let skips := if skipped = 0 then "" else ", " ++ intText skipped ++ " skipped"
  let counts := intText completed ++ " tasks" ++ skips
  let line :=
    if failed = 0 then "[green]✓ Workflow complete[/green] | " ++ counts ++ " | " ++ time
    else "[red]✗ Workflow failed[/red] | " ++ counts ++ ", " ++ intText failed ++ " failed | " ++
      time
  return [blankLine, .markup (String.ofList (List.replicate 40 '─')), .markup line, blankLine]

/-- The lines that show a notice. -/
def lines : Notice → Except Error (List Line)
  | .header plan => headerLines plan
  | .start task depth =>
    let icon := if task.nested.isEmpty then runningIcon else groupIcon
    (taskLine icon task depth).map fun line =>
      [.markup (line ++ " " ++ dim ("(" ++ task.type ++ ")"))]
  | .result task success duration output fault depth =>
    resultLines task success duration output fault depth
  | .skipped task reason depth =>
    (taskLine skippedIcon task depth).map fun line =>
      [.markup (line ++ " " ++ dim ("- " ++ escapeMarkup reason))]
  | .error s => .ok [.markup ("\n[bold red]Error: " ++ escapeMarkup s ++ "[/bold red]")]
  | .interrupted =>
    .ok [blankLine, .markup "[yellow]Workflow interrupted by user[/yellow]"]
  | .listing entries => listingLines entries
  | .summary done lost passed elapsed => summaryLines done lost passed elapsed
  | .refusal content =>
    .ok [blankLine, .panel "[bold red]Error[/bold red]" (plainMarkup content), blankLine]

end Notice

/-- What shows lines of markup. It gives an error for markup that it cannot read. -/
structure Console where
  print : String → Except Error Unit

namespace Console

/-- A console that takes down markup as it is. -/
def recording : Console := ⟨fun _ => .ok ()⟩

/-- Shows a line. The titles of tables and panels are no text of the user. -/
def showLine (c : Console) : Line → Except Error Unit
  | .markup s => c.print s
  | .table .. => .ok ()
  | .panel .. => .ok ()

/-- Shows lines one after another, up to the first that is refused. -/
def showLines (c : Console) (lines : List Line) : Except Error Unit :=
  lines.forM c.showLine

/-- Shows the lines above a run. -/
def showHeader (c : Console) (plan : Plan) : Except Error Unit := do
  c.showLines (← (Notice.header plan).lines)

end Console

end Runbook.Display
