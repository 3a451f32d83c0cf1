import Runbook.Display.Notice
import Runbook.Files.Tree
import Runbook.Procedure.Connection
import Runbook.Template

/-!
# What a run changes

The state of a run, and computations on it that may fail. A failed computation keeps what it had
changed before.

* `World`: variables, files, uses of connections, notices, the counts of tasks, and the console.
* `Run`: a computation on a world.
* `Surroundings`: what a run finds and does not change.
-/

namespace Runbook

open Runbook.Display

/-- What a task comes to. A finished one may name the task to go on with. -/
inductive Outcome
  | done (output : String) (next : Option String)
  | failed (reason : String)
  deriving DecidableEq, Repr

/-- The state of a run. -/
structure World where
  store : Store
  files : FileTree
  uses : List Use
  notices : List Notice
  completed : Nat
  failed : Nat
  skipped : Nat
  console : Console

/-- The world before a run. -/
def World.start (store : Store) (files : FileTree) (console : Console := .recording) : World :=
  ⟨store, files, [], [], 0, 0, 0, console⟩

/-- A computation on a world: a result or an error, and the world afterwards. -/
def Run (α : Type) : Type := World → Except Error α × World

namespace Run

/-- The computation that gives a result and changes nothing. -/
def pure {α : Type} (a : α) : Run α := fun w => (.ok a, w)

/-- One computation after another; an error of the first is the error of both. -/
def bind {α β : Type} (x : Run α) (f : α → Run β) : Run β := fun w =>
  match x w with
  | (.ok a, w) => f a w
  | (.error e, w) => (.error e, w)

instance : Monad Run where
  pure := Run.pure
  bind := Run.bind

/-- The computation that fails and changes nothing. -/
def fail {α : Type} (e : Error) : Run α := fun w => (.error e, w)

/-- A result that needs no world. -/
def ofExcept {α : Type} (r : Except Error α) : Run α := fun w => (r, w)

instance : MonadLift (Except Error) Run := ⟨ofExcept⟩

/-- A computation whose error is part of its result. -/
def attempt {α : Type} (x : Run α) : Run (Except Error α) := fun w =>
  let (r, w) := x w
  (.ok r, w)

/-- The variables. -/
def store : Run Store := fun w => (.ok w.store, w)

/-- The files. -/
def files : Run FileTree := fun w => (.ok w.files, w)

/-- Changes the variables, also if that fails halfway. -/
def onStore {α : Type} (f : Store → Except Error α × Store) : Run α := fun w =>
  let (r, s) := f w.store
  (r, { w with store := s })

/-- Writes a variable, or fails and changes nothing. -/
def write (f : Store → Except Error Store) : Run Unit :=
  onStore fun s =>
    match f s with
    | .ok s => (.ok (), s)
    | .error e => (.error e, s)

/-- Writes the content of a file. -/
def writeFile (l : Location) (c : FileContent) : Run Unit := fun w =>
  match w.files.write l c with
  | .ok files => (.ok (), { w with files })
  | .error e => (.error e, w)

/-- Notes uses of connections. -/
def note (uses : List Use) : Run Unit := fun w =>
  (.ok (), { w with uses := w.uses ++ uses })

/-- Tells the user something, if it has lines that show it. -/
def tell (n : Notice) : Run Unit := fun w =>
  match n.lines with
  | .ok _ => (.ok (), { w with notices := w.notices ++ [n] })
  | .error e => (.error e, w)

/-- Tells the user what is above a run, if the console takes it: in no other notice does text of
the user stand as it is. -/
def tellHeader (plan : Plan) : Run Unit := fun w =>
  match w.console.showHeader plan with
  | .ok () => (.ok (), { w with notices := w.notices ++ [.header plan] })
  | .error e => (.error e, w)

/-- Counts a task that succeeded. -/
def countCompleted : Run Unit := fun w => (.ok (), { w with completed := w.completed + 1 })

/-- Counts a task that failed. -/
def countFailed : Run Unit := fun w => (.ok (), { w with failed := w.failed + 1 })

/-- Counts a task that was skipped. -/
def countSkipped : Run Unit := fun w => (.ok (), { w with skipped := w.skipped + 1 })

end Run

/-- How a named connection comes about: it is at hand, or a module opens it. -/
inductive Opener
  | ready (c : Connection)
  | module (settings : ConnectionSettings)

/-- What a run finds and does not change: the directory of relative paths, the connections by
name, and the modules that open connections. -/
structure Surroundings where
  base : Location
  connections : List (Value × Opener)
  modules : List (String × Connection)

namespace Surroundings

/-- The location of a path. -/
def locate (env : Surroundings) (path : String) : Location :=
  (Location.ofText path).within env.base

/-- The package that a dotted module name begins with. -/
def packageOf (name : String) : String :=
  String.ofList (name.toList.takeWhile (· != '.'))

/-- The module of a name. -/
def findModule (env : Surroundings) (v : Value) : Except Error Connection :=
  match v.asText? with
  | none => .error (.noMember v.typeName "startswith")
  | some name =>
    let package := packageOf name
    match env.modules.find? (·.1 == name) with
    | some (_, c) => .ok c
    | none =>
      if package == "" then .error (.kind (.relativeModule name))
      else if env.modules.any (·.1 == package) then .error (.noPackage name package)
      else .error (.noModule package)

/-- Options with their placeholders resolved, by name. -/
def openingOptions (s : Store) (v : Value) : Except Error (List (String × Value)) := do
  let entries ← v.asMap "items"
  let resolved ← entries.mapM fun (k, v) => do return (k, ← s.resolveValue v)
  let named ← resolved.mapM fun (k, v) =>
    match k.asText? with
    | some name => .ok (name, v)
    | none => .error (.kind .notStringKeys)
  return named.mergeSort fun a b => decide (a.1 ≤ b.1)

/-- Opens a connection by name. -/
def connect (env : Surroundings) (name : String) : Run Connection := do
  match env.connections.find? (·.1.isText name) with
  | none =>
    let names ← Notice.nameTexts 0 (env.connections.map (·.1))
    Run.fail (.value (.unknownConnection name names))
  | some (_, .ready c) =>
    Run.note [.connect name]
    Run.ofExcept c.opening
    return c
  | some (_, .module settings) =>
    let c ← env.findModule settings.module
    let options ← openingOptions (← Run.store) settings.options
    Run.note [.openWith options]
    Run.ofExcept c.opening
    return c

end Surroundings

end Runbook
