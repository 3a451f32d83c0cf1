import Runbook.Json.Printer
import Runbook.Records.Cursor

/-!
# Reading rows

A reader of one JSON file, which is opened, gives rows in batches, and is closed. A row holds the
columns asked for, each a dotted path into the record, or the whole record.

* `Reader.openFile`, `Reader.close`: opening and closing.
* `Reader.readBatch`: at most so many rows, and at least one while there are any.
* `Reader.readBatches`, `Reader.readAll`: all rows that are left.
-/

namespace Runbook.Records

open Runbook.Text

/-- The column that holds the whole record as text. -/
def completeColumn : String := "[CompleteJSONRecordAsText]"

/-- The number of characters read at once, if no other is asked for. -/
def defaultChunk : Nat := 65536

/-- Which file to read, and how. -/
structure Settings where
  file : Location
  lines : Bool
  path : Option String
  columns : List Value

/-- The path to the records as it is used: trimmed, and none if it is blank. -/
def arrayPath (v : Value) : Except Error (Option String) :=
  match v, v.asText? with
  | .null, _ => .ok none
  | _, some s => .ok (if isBlankText s then none else some (trim s))
  | v, none => .error (.noMember v.typeName "strip")

/-- A column with its dotted path; the column of the whole record has none. -/
structure Column where
  name : String
  path : Option (List String)

/-- A column from a value, which must be text. -/
def Column.ofValue (v : Value) : Except Error Column :=
  match v.asText? with
  | some name => .ok ⟨name, if name == completeColumn then none else some (dotted name)⟩
  | none => .error (.noMember v.typeName "split")

/-- The text of a value in a column; a missing or null one has none. -/
def columnText : Option Value → Except Error Value
  | none => .ok .null
  | some .null => .ok .null
  | some (.dict entries) => (Value.dict entries).toJson.map .str
  | some (.list items) => (Value.list items).toJson.map .str
  | some (.bool b) => .ok (.str (if b then "true" else "false"))
  | some v => v.text.map .str

/-- What a column holds for a record. -/
def Column.valueOf (c : Column) (record : Value) : Except Error Value :=
  match c.path with
  | none => record.toJson.map .str
  | some parts => columnText (follow record parts)

/-- The row of a record: its columns, or all of it. -/
def rowOf (columns : List Column) (record : Value) : Except Error Value :=
  match columns with
  | [] =>
    match record with
    | .dict entries => .ok (.dict entries)
    | v => .ok (.dict [(.str "value", v)])
  | columns => do
    let cells ← columns.mapM fun c => (c.valueOf record).map fun v => (Value.str c.name, v)
    return .dict (Entries.ofList cells)

/-- A reader: what it reads, and where it stands if it is open. -/
structure Reader where
  settings : Settings
  chunk : Nat
  columns : List Column
  cursor : Option Cursor

namespace Reader

/-- A reader that is not open. -/
def ofSettings (settings : Settings) (chunk : Nat) : Reader := ⟨settings, chunk, [], none⟩

/-- The cursor at the start of the file. -/
def start (r : Reader) (files : FileTree) : Except Error Cursor :=
  let s := r.settings
  if s.lines then
    (files.read s.file).map fun c => .lines [] 0 s.path (.ofContent 0 c)
  else
    match s.path with
    | some path =>
      match files.readText s.file with
      | .error e => .error e
      | .ok text =>
        match Json.parse text with
        | .error e => .error e
        | .ok root => .ok (.list (((navigate root path).map recordsOf).getD []))
    | none =>
      (files.read s.file).map fun c =>
        .stream .start (.ofSource s.file.text r.chunk (.ofContent r.chunk c))

/-- The reader at the start of its file. -/
def openFile (r : Reader) (files : FileTree) : Except Error Reader :=
  match r.settings.columns.mapM Column.ofValue with
  | .error e => .error e
  | .ok columns =>
    match r.start files with
    | .error e => .error e
    | .ok cursor => .ok { r with columns, cursor := some cursor }

/-- The reader, not open. -/
def close (r : Reader) : Reader := { r with cursor := none }

/-- Rows up to a number of them, and the cursor behind them. An error loses the rows before it and
leaves the cursor at its end. -/
def takeRows (columns : List Column) : (count : Nat) → Cursor → Except Error (List Value) × Cursor
  | 0, c => (.ok [], c)
  | count + 1, c =>
    match c.next with
    | .error e => (.error e, .finished)
    | .ok none => (.ok [], .finished)
    | .ok (some (record, c)) =>
      match rowOf columns record with
      | .error e => (.error e, c)
      | .ok row =>
        match takeRows columns count c with
        | (.ok rows, c) => (.ok (row :: rows), c)
        | failed => failed

/-- A batch of rows: at most so many, but one at least while there are any. -/
def readBatch (r : Reader) (size : Int) : Except Error (List Value) × Reader :=
  match r.cursor with
  | none => (.error .readerClosed, r)
  | some c =>
    let (rows, c) := takeRows r.columns (max size 1).toNat c
    (rows, { r with cursor := some c })

/-- Batches until one is empty. -/
def readBatchesWith (size : Int) :
    (fuel : Nat) → Reader → Except Error (List (List Value)) × Reader
  | 0, r => (.ok [], r)
  | fuel + 1, r =>
    match r.readBatch size with
    | (.error e, r) => (.error e, r)
    | (.ok [], r) => (.ok [], r)
    | (.ok rows, r) =>
      match readBatchesWith size fuel r with
      | (.ok batches, r) => (.ok (rows :: batches), r)
      | failed => failed

/-- All batches that are left. -/
def readBatches (r : Reader) (size : Int) : Except Error (List (List Value)) × Reader :=
  let bound := (r.cursor.map (·.bound)).getD 0
  readBatchesWith size (bound + 2) r

/-- All rows that are left. -/
def readAll (r : Reader) (size : Int) : Except Error (List Value) × Reader :=
  match r.readBatches size with
  | (.ok batches, r) => (.ok batches.flatten, r)
  | (.error e, r) => (.error e, r)

end Reader

end Runbook.Records
