import Runbook.Records.Reader
import Runbook.Run.World
import Runbook.Task.Check

/-!
# Reading a file

A task that reads the rows of a JSON file into a variable, and the whole document into another if
it is asked to keep it.
-/

namespace Runbook

open Runbook.Text Runbook.Records

/-- The number of rows read at once. -/
def batchSize (v : Value) : Except Error Int :=
  match v, wholeNumber? v with
  | _, some n => .ok n
  | .float x, none => .ok (((x.negate.floor).truncate?.map fun n => -n).getD 1)
  | v, none => .error (.kind (.notOrdered ">=" "int" v.typeName))

/-- All rows of a reader. What is no number of rows only matters once there is a row. -/
def readAllRows (reader : Reader) (batch : Value) : Except Error (List Value) :=
  match batchSize batch with
  | .ok size => (reader.readAll size).1
  | .error e =>
    match (reader.readBatch 1).1 with
    | .ok (_ :: _) => .error e
    | other => other

/-- The rows of a file. -/
def readRows (settings : Settings) (columns batch : Value) (files : FileTree) :
    Except Error (List Value) := do
  let columns ← (columns.orElse (.list [])).items
  let reader := Reader.ofSettings { settings with columns } defaultChunk
  let reader ← reader.openFile files
  readAllRows reader batch

/-- The document that a file holds. -/
def readDocument (l : Location) (files : FileTree) : Except Error Value := do
  Json.parse (← files.readText l)

namespace Task

/-- Reads the rows, and stores the document if the settings ask for it. -/
def readRecords (t : Task) (settings : Settings) : Run (List Value) := do
  let files ← Run.files
  let batch := t.settingOr "batch_size" (.int defaultBatch)
  let rows ← readRows settings (t.setting "columns") batch files
  if (t.setting "keep_document").isTruthy then
    let document ← readDocument settings.file files
    Run.write (·.setScoped t.scope (.str "Document") document)
  return rows

/-- Reads a file into variables. -/
def readFile (t : Task) (env : Surroundings) : Run Outcome := do
  let path ← (← Run.store).resolve (← (← t.required "file").text)
  let file := env.locate path
  let lines := (t.setting "jsonl").isTruthy
  let records ← arrayPath (t.setting "json_array_path")
  let output ← (t.settingOr "output" (.str "Rows")).text
  match ← Run.attempt (t.readRecords ⟨file, lines, records, []⟩) with
  | .error (.file .notFound _) => return .failed ("File not found: " ++ file.text)
  | .error e =>
    if e.isFileError || e.isValueError then
      return .failed ("Failed to read " ++ file.text ++ ": " ++ e.message)
    Run.fail e
  | .ok rows =>
    Run.write (·.setScoped t.scope (.str output) (.list rows))
    let target := Error.variableName (← t.scope.text) output
    return .done ("Read " ++ natText rows.length ++ " row(s) into " ++ target) none

end Task

end Runbook
