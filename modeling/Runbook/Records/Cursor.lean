import Runbook.Records.Stream

/-!
# Records of a file

The records of a JSON file one after another, in three modes.

* A list: the records are known at once.
* Lines: each line that is not blank is a JSON value; arrays give their items.
* A stream: of a text that is one array, the objects among its items; of any other text, each
  value in turn.

`Cursor.next` gives the next record and the cursor behind it. A cursor that has met an error is at
its end.
-/

namespace Runbook.Records

open Runbook.Text

/-- The value that names lead to through nested dictionaries. -/
def follow (v : Value) : List String → Option Value
  | [] => some v
  | part :: rest =>
    match v with
    | .dict entries =>
      match Entries.field? entries part with
      | some w => follow w rest
      | none => none
    | _ => none

/-- The parts of a text between its points. -/
def dotted (path : String) : List String :=
  (path.toList.splitOn '.').map String.ofList

/-- The value that a dotted path leads to. -/
def navigate (v : Value) (path : String) : Option Value :=
  follow v (dotted path)

/-- The records that a value found in a file stands for. -/
def recordsOf : Value → List Value
  | .list items => items
  | v => [v]

/-- Where a stream stands: at its start, before an item of an array, behind one, or between the
values of a sequence. -/
inductive Phase
  | start
  | item
  | separator
  | sequence
  deriving DecidableEq, Repr

/-- Where reading the records of a file stands. -/
inductive Cursor
  | list (records : List Value)
  | lines (pending : List Value) (number : Nat) (path : Option String) (source : Source)
  | stream (phase : Phase) (s : Stream)

namespace Cursor

/-- A cursor behind the last record. -/
def finished : Cursor := .list []

/-- A record with the cursor behind it, if there is one. -/
abbrev Next := Except Error (Option (Value × Cursor))

/-- The records of a line. -/
def lineRecords (number : Nat) (path : Option String) (line : List Char) :
    Except Error (List Value) :=
  if line.all isBlank then .ok []
  else
    match Json.parse line with
    | .error (.json l) => .error (.value (.jsonLine number l))
    | .error e => .error e
    | .ok root =>
      match path with
      | none => .ok (recordsOf root)
      | some path => .ok (((navigate root path).map recordsOf).getD [])

/-- The next record of lines. -/
def nextLine : (fuel : Nat) → (number : Nat) → Option String → Source → Next
  | 0, _, _, _ => .ok none
  | fuel + 1, number, path, source =>
    match source.readLine with
    | .error e => .error e
    | .ok ([], _) => .ok none
    | .ok (line, source) =>
      match lineRecords (number + 1) path line with
      | .error e => .error e
      | .ok [] => nextLine fuel (number + 1) path source
      | .ok (v :: pending) => .ok (some (v, .lines pending (number + 1) path source))

/-- The next record of a stream. Each turn of an array passes over a character at least. -/
def nextStreamed : (fuel : Nat) → Phase → Stream → Next
  | 0, _, _ => .ok none
  | fuel + 1, .start, s =>
    match s.peek with
    | .error e => .error e
    | .ok (some '[', s) =>
      match s.advance.peek with
      | .error e => .error e
      | .ok (some ']', _) => .ok none
      | .ok (_, s) => nextStreamed fuel .item s
    | .ok (_, s) => nextStreamed fuel .sequence s
  | fuel + 1, .item, s =>
    match s.decode with
    | .error e => .error e
    | .ok (.dict entries, s) => .ok (some (.dict entries, .stream .separator s))
    -- items of an array that are no objects are passed over
    | .ok (_, s) => nextStreamed fuel .separator s
  | fuel + 1, .separator, s =>
    match s.peek with
    | .error e => .error e
    | .ok (some ']', _) => .ok none
    | .ok (some ',', s) => nextStreamed fuel .item s.advance
    | .ok (_, s) => .error (.value (.separatorExpected s.name))
  | _ + 1, .sequence, s =>
    match s.peek with
    | .error e => .error e
    | .ok (none, _) => .ok none
    | .ok (some _, s) =>
      match s.decode with
      | .error e => .error e
      | .ok (v, s) => .ok (some (v, .stream .sequence s))

/-- The next record. -/
def next : Cursor → Next
  | .list [] => .ok none
  | .list (v :: records) => .ok (some (v, .list records))
  | .lines (v :: pending) number path source => .ok (some (v, .lines pending number path source))
  | .lines [] number path source => nextLine (source.unread.length + 1) number path source
  | .stream phase s => nextStreamed (2 * s.left + 3) phase s

/-- A bound on the number of records still to come. -/
def bound : Cursor → Nat
  | .list records => records.length
  | .lines pending _ _ source => pending.length + source.unread.length
  | .stream _ s => s.left

end Cursor

end Runbook.Records
