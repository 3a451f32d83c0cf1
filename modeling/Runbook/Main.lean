import Runbook.CommandLine.Session
import Runbook.Display.Console
import Runbook.Value.Parsing

/-!
# The program

Runs the workflow of a file that is named on the command line. The file and what its tasks read
are found below the directory of the workflow; files that the run writes are written when it has
ended.
-/

namespace Runbook.Program

open Runbook.CommandLine Runbook.Display

/-- How deep below a directory files are looked for. -/
def searchDepth : Nat := 4

/-- After how many tasks a run is given up. -/
def patience : Nat := 1000000

/-- What is said of the use of the program. -/
def usage : String :=
  "usage: runbook [-h] [--policy \x7bkeep_as_is,replace_with_empty,throw_error\x7d]\n" ++
  "               [--var Scope.Key=VALUE] [--log-level \x7bDEBUG,INFO,WARNING,ERROR\x7d]\n" ++
  "               [--show-vars]\n" ++
  "               workflow_file"

/-- Two parts of a file tree together. -/
def joinTrees (a b : FileTree) : FileTree :=
  ⟨a.directories ++ b.directories, a.files ++ b.files⟩

/-- The files in a directory and below it. -/
def readBelow : (depth : Nat) → Location → IO FileTree
  | 0, l => return ⟨[l.way], []⟩
  | depth + 1, l => do
    let mut tree : FileTree := ⟨[l.way], []⟩
    let folder ← IO.FS.realPath l.text
    for entry in ← folder.readDir do
      let place : Location := { l with parts := l.parts ++ [entry.fileName] }
      if ← entry.path.isDir then
        tree := joinTrees tree (← readBelow depth place)
      else
        let content ← IO.FS.readBinFile entry.path
        tree := joinTrees tree ⟨[], [(place.way, .bytes content.toList)]⟩
    return tree

/-- The workflow file in the content of a file. -/
def workflowOf : FileContent → WorkflowFile
  | .bytes bs =>
    match (Value.bytes bs).parseJson with
    | .ok v => .content v
    | .error _ => .malformed
  | .text cs =>
    match Value.parseJsonText cs with
    | .ok v => .content v
    | .error _ => .malformed

/-- What is found at a location among files. -/
def workflowAt (files : FileTree) (l : Location) : WorkflowFile :=
  match files.read l with
  | .ok content => workflowOf content
  | .error (.file .isDirectory _) => .directory
  | .error _ => .missing

/-- The directories on the way to a location. -/
def directoriesTo (l : Location) : List (List String) :=
  (List.range l.way.length).map fun n => l.way.take n

/-- Writes the files that a session wrote. -/
def writeFiles (files : FileTree) : IO Unit := do
  for (way, content) in files.files do
    match way, content with
    | root :: parts, .text cs =>
      IO.FS.writeFile (Location.text ⟨root, parts⟩) (String.ofList cs)
    | _, _ => pure ()

/-- Runs the session of options. -/
def runOptions (o : Options) : IO UInt32 := do
  let directory := Location.ofText (← IO.currentDir).toString
  let file := ((Location.ofText o.file).within directory).resolved
  let below ← readBelow searchDepth file.parent
  let files := joinTrees ⟨directoriesTo file, []⟩ below
  let host : Host := ⟨directory, workflowAt files, files, [], .recording⟩
  match Session.ofOptions o host patience with
  | .ok (some session) =>
    for line in plainText session.notices do
      IO.println line
    writeFiles session.files
    return UInt32.ofNat session.exitCode
  | .ok none => do
    IO.eprintln "The run has not ended."
    return 1
  | .error e => do
    IO.eprintln e.message
    return 1

end Runbook.Program

open Runbook.CommandLine in
/-- Runs the workflow that the arguments name. -/
def main (args : List String) : IO UInt32 := do
  match Reading.ofArguments args with
  | .help => do
    IO.println Runbook.Program.usage
    return 0
  | .misuse => do
    IO.eprintln Runbook.Program.usage
    return 2
  | .run o => Runbook.Program.runOptions o
