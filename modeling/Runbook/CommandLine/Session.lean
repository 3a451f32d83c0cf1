import Runbook.CommandLine.Arguments
import Runbook.Plan.WorkflowFile
import Runbook.Run.Flow

/-!
# Command line sessions

A run that is asked for on the command line, as a function of the arguments and of what the file
system holds.

* `readOverrides`: variables given as arguments; the value is all behind the first equals sign.
* `Session.ofArguments`: the whole session: the exit code, what the user is told, and the files
  afterwards.
-/

namespace Runbook.CommandLine

open Runbook.Text Runbook.Display

/-- A variable given as an argument. -/
def readOverride (item : String) : Except Error (String × String) :=
  match splitValue item with
  | (_, none) => .error (.value (.override item))
  | (front, some v) =>
    let name := trim front
    if name == "" then .error (.value (.override item))
    else
      match Path.parse name with
      | .ok _ => .ok (name, v)
      | .error (.malformed x fault) => .error (.value (.overrideName name (fault.message x)))
      | .error e => .error e

/-- Variables given as arguments; of those of one name the last counts. -/
def readOverrides (items : List String) : Except Error Entries := do
  let pairs ← items.mapM readOverride
  return Entries.ofList (pairs.map fun p => (.str p.1, .str p.2))

/-- What a session finds: the directory it begins in, the workflow files and other files there
are, the modules that open connections, and the console. -/
structure Host where
  directory : Location
  workflowAt : Location → WorkflowFile
  files : FileTree
  modules : List (String × Connection)
  console : Console := .recording

/-- What a session comes to. -/
structure Session where
  exitCode : Nat
  notices : List Notice
  files : FileTree

/-- What a session says of a file that holds no workflow. -/
def refusalOfFile (path : String) (fault : DocumentFault) : String :=
  "[bold red]Invalid workflow file![/bold red]\n\n" ++
    "[white]File:[/white] [cyan]" ++ escapeMarkup path ++ "[/cyan]\n\n" ++
    "[white]Error:[/white] " ++ escapeMarkup fault.message ++ "\n\n" ++
    "[white]Required fields:[/white]\n" ++
    "  [cyan]type: " ++ workflowType ++ "[/cyan]\n" ++
    "  [cyan]version: 1[/cyan]"

/-- What a session says of a plan or an argument that cannot be used. -/
def refusalOfError (e : Error) : String :=
  "[bold red]" ++ escapeMarkup e.message ++ "[/bold red]"

/-- Whether an error is told to the user instead of ending the program. -/
def isRefused : Error → Bool
  | .config _ => true
  | e => e.isValueError

/-- The plan that options ask to run. -/
def planOf (o : Options) (path : String) (file : WorkflowFile) : Except Error Plan := do
  let plan ← file.load path
  let overrides ← readOverrides o.vars
  let policy ← match o.policy with
    | some s => MissingPolicy.parse (.str s)
    | none => pure plan.policy
  let vars := overrides.foldl (fun vars e => Entries.insert vars e.1 e.2) plan.vars
  return { plan with policy, vars }

namespace Session

/-- A session that only tells why there is no run. -/
def refused (host : Host) (content : String) : Session := ⟨1, [.refusal content], host.files⟩

/-- A session without a word. -/
def silent (host : Host) (exitCode : Nat) : Session := ⟨exitCode, [], host.files⟩

/-- Runs a plan, and shows the variables afterwards if asked to. -/
def runAndShow (plan : Plan) (env : Surroundings) (showVars : Bool) (fuel : Nat) :
    Run (Option Nat) := do
  match ← plan.run env fuel with
  | none => return none
  | some report =>
    if showVars then Run.tell (.listing report.snapshot)
    return some (if report.success then 0 else 1)

/-- The session of a plan; there is none if the run has not ended after so many tasks. -/
def ofPlan (plan : Plan) (o : Options) (base : Location) (host : Host) (fuel : Nat) :
    Except Error (Option Session) := do
  let store ← plan.seed none
  let env := plan.surroundings base [] host.modules
  let (result, world) := runAndShow plan env o.showVars fuel
    (World.start store host.files host.console)
  match ← result with
  | none => return none
  | some exitCode => return some ⟨exitCode, world.notices, world.files⟩

/-- The session of options. -/
def ofOptions (o : Options) (host : Host) (fuel : Nat) : Except Error (Option Session) :=
  let location := ((Location.ofText o.file).within host.directory).resolved
  let path := location.text
  let file := host.workflowAt location
  match file.fault? path with
  | some fault => .ok (some (refused host (refusalOfFile path fault)))
  | none =>
    match planOf o path file with
    | .ok plan => ofPlan plan o location.parent host fuel
    | .error e =>
      if isRefused e then .ok (some (refused host (refusalOfError e))) else .error e

/-- The session of arguments. -/
def ofArguments (args : List String) (host : Host) (fuel : Nat) :
    Except Error (Option Session) :=
  match Reading.ofArguments args with
  | .help => .ok (some (silent host 0))
  | .misuse => .ok (some (silent host 2))
  | .run o => ofOptions o host fuel

end Session

end Runbook.CommandLine
