import Runbook.Calendar.Basic
import Runbook.Files.Fault
import Runbook.Json.Fault
import Runbook.Number.Reading

/-!
# Errors

Every way in which an operation of the library can fail, by cause, and what it says.

* `Error.message`: the text of an error.
* `Error.isStoreError`: the errors of expressions, variables and configurations, which turn a
  running task into a failed one.
* `Error.isValueError`: the errors of values that cannot be read or used.
-/

namespace Runbook

open Runbook.Text

/-- What is wrong with a variable expression. -/
inductive PathFault
  | empty
  | openBracket
  | noScopeAndKey
  | blankScopeOrKey
  deriving DecidableEq, Repr

/-- What to say about an expression. -/
def PathFault.message (expression : String) : PathFault → String
  | .empty => "Empty variable expression"
  | .openBracket => "Unterminated bracket in expression: " ++ quote expression
  | .noScopeAndKey => "Expression must start with Scope.Key: " ++ quote expression
  | .blankScopeOrKey => "Scope and key must be non-empty"

/-- What is wrong with a workflow file as a whole. -/
inductive DocumentFault
  | missing (path : String)
  | notFile (path : String)
  | malformed
  | notDictionary
  | wrongType
  | wrongVersion
  deriving DecidableEq, Repr

/-- The type that a workflow file names. -/
def workflowType : String := "task-workflow"

/-- What to say about a workflow file. -/
def DocumentFault.message : DocumentFault → String
  | .missing path => "File not found: " ++ path
  | .notFile path => "Not a file: " ++ path
  | .malformed => "Invalid YAML"
  | .notDictionary => "Workflow file must contain a YAML dictionary"
  | .wrongType => "Missing or invalid 'type' field (must be '" ++ workflowType ++ "')"
  | .wrongVersion => "Missing or invalid 'version' field (must be 1)"

/-- The texts of the missing-variable policies, as messages list them. -/
def policyNames : List String := ["keep_as_is", "replace_with_empty", "throw_error"]

/-- What to say about a text that names no policy. -/
def invalidPolicyMessage (given : String) : String :=
  "Invalid missing variable policy '" ++ given ++ "'. Valid: " ++ ", ".intercalate policyNames

/-- What is wrong with a configuration. Tasks are named by their position. -/
inductive ConfigFault
  | taskNotDictionary (position : String)
  | taskWithoutType (position : String)
  | invalidOnError (position given : String)
  | tasksNotList
  | duplicateIds (ids : List String)
  | invalidPolicy (reason : String)
  | varsNotDictionary
  | connectionWithoutDriver (name : String)
  | document (fault : DocumentFault)
  deriving DecidableEq, Repr

/-- What to say about a configuration. -/
def ConfigFault.message : ConfigFault → String
  | .taskNotDictionary position => "Task " ++ position ++ " must be a dictionary"
  | .taskWithoutType position => "Task " ++ position ++ " requires 'type' field"
  | .invalidOnError position given =>
    "Task " ++ position ++ ": invalid on_error '" ++ given ++ "'. Valid: continue, stop"
  | .tasksNotList => "'tasks' must be a list"
  | .duplicateIds ids => "Duplicate task ids: " ++ ", ".intercalate ids
  | .invalidPolicy reason => reason
  | .varsNotDictionary => "'vars' must be a dictionary of Scope.Key: value"
  | .connectionWithoutDriver name => "Connection '" ++ name ++ "' requires 'driver' field"
  | .document fault => fault.message

/-- The operators of conditions, as messages list them. -/
def operatorNames : List String :=
  ["equals", "notequal", "isnull", "isnotnull", "isemptystring", "isnotemptystring"]

/-- What is wrong with a condition. -/
inductive ConditionFault
  | noOperator
  | notAnOperator (given : String)
  | unknownOperator (given : String)
  | groupsNotList
  deriving DecidableEq, Repr

/-- What to say about a condition. -/
def ConditionFault.message : ConditionFault → String
  | .noOperator => "Condition requires 'operator' field"
  | .notAnOperator given =>
    "Unknown operator '" ++ given ++ "'. Valid: " ++ ", ".intercalate operatorNames
  | .unknownOperator given => "Unknown operator '" ++ given ++ "'"
  | .groupsNotList => "IF 'groups' must be a list"

/-- What is wrong with the settings of a task. -/
inductive SettingsFault
  | setWithoutVar
  | setWithoutValue
  | setFormat (given : String)
  | variablesWithoutAction
  | variablesAction (given : String)
  | removeWithoutNames
  | exportWithoutFile
  | ifWithoutGroups
  | ifGroups (fault : ConditionFault)
  | fileWithoutFile
  | fileColumns
  | fileKeepsLines
  | fileBatchSize
  | procedureWithoutName
  | procedureWithoutConnection
  | procedureParams
  | procedureParam
  | parallelWithoutTasks
  deriving DecidableEq, Repr

/-- What to say about settings. -/
def SettingsFault.message : SettingsFault → String
  | .setWithoutVar => "Set task requires 'var' field"
  | .setWithoutValue => "Set task requires 'value' field"
  | .setFormat given => "Invalid format '" ++ given ++ "'. Valid: text, json, xml"
  | .variablesWithoutAction => "Variables task requires 'action' field"
  | .variablesAction given => "Invalid action '" ++ given ++ "'. Valid: clear, export, remove"
  | .removeWithoutNames => "Variables 'remove' action requires a 'names' list"
  | .exportWithoutFile => "Variables 'export' action requires 'file' field"
  | .ifWithoutGroups => "If task requires 'groups' field"
  | .ifGroups fault => fault.message
  | .fileWithoutFile => "JSON file task requires 'file' field"
  | .fileColumns => "JSON file task 'columns' must be a list"
  | .fileKeepsLines => "JSON file task cannot keep_document for JSONL files"
  | .fileBatchSize => "JSON file task 'batch_size' must be a positive integer"
  | .procedureWithoutName => "Stored procedure task requires 'procedure' field"
  | .procedureWithoutConnection => "Stored procedure task requires 'connection' field"
  | .procedureParams => "Stored procedure task 'params' must be a list"
  | .procedureParam => "Each stored procedure param must be a dictionary"
  | .parallelWithoutTasks => "Parallel task requires a non-empty 'tasks' list"

/-- Why a text could not be loaded as JSON. -/
inductive JsonCause
  | located (l : Json.Located)
  | notText (typeName : String)
  deriving DecidableEq, Repr

/-- What to say about a text that is no JSON. -/
def JsonCause.message : JsonCause → String
  | .located l => l.message
  | .notText typeName => "the JSON object must be str, bytes or bytearray, not " ++ typeName

/-- A value that cannot be read or used. Texts are given as the message shows them. -/
inductive ValueFault
  | policy (given : String)
  | json (cause : JsonCause)
  | xml
  | markupNode
  | integerTooLong (digits : Option Nat)
  | notInteger (shown : String)
  | notFloat (shown : String)
  | notNumeric (shown : String)
  | notIso (shown : String)
  | calendar (fault : CalendarFault)
  | offset (microseconds : Int)
  | nanToInteger (kind : String)
  | signalingNan
  | paramWithoutName
  | paramDirection (direction name : String)
  | unknownConnection (name : String) (available : List String)
  | unknownTaskType (name : String) (available : List String)
  | settings (fault : SettingsFault)
  | maxWorkers
  | jsonLine (line : Nat) (l : Json.Located)
  | jsonStream (file : String) (l : Json.Located)
  | separatorExpected (file : String)
  | override (item : String)
  | overrideName (name inner : String)
  | nulInPath
  | pairLength (position length : Nat)
  | unpacked (length : Nat)
  deriving DecidableEq, Repr

/-- The text of a length of time in microseconds, in days, seconds and microseconds. -/
def spanText (microseconds : Int) : String :=
  let days := microseconds.fdiv 86400000000
  let left := microseconds.fmod 86400000000
  let seconds := left / 1000000
  let rest := left % 1000000
  let part := fun (name : String) (n : Int) => if n = 0 then [] else [name ++ "=" ++ intText n]
  let parts := part "days" days ++ part "seconds" seconds ++ part "microseconds" rest
  "datetime.timedelta(" ++ (if parts.isEmpty then "0" else ", ".intercalate parts) ++ ")"

/-- What to say about a value. -/
def ValueFault.message : ValueFault → String
  | .policy given => invalidPolicyMessage given
  | .json cause => "Invalid JSON: " ++ cause.message
  | .xml => "Invalid XML"
  | .markupNode => "Invalid input object"
  | .integerTooLong digits =>
    let tail := "; use sys.set_int_max_str_digits() to increase the limit"
    let limit := "Exceeds the limit (" ++ natText maxIntegerDigits ++
      " digits) for integer string conversion"
    match digits with
    | some n => limit ++ ": value has " ++ natText n ++ " digits" ++ tail
    | none => limit ++ tail
  | .notInteger shown => "invalid literal for int() with base 10: " ++ shown
  | .notFloat shown => "could not convert string to float: " ++ shown
  | .notNumeric shown => "Invalid numeric value: " ++ shown
  | .notIso shown => "Invalid isoformat string: " ++ shown
  | .calendar fault => fault.message
  | .offset total =>
    "offset must be a timedelta strictly between -timedelta(hours=24) and " ++
      "timedelta(hours=24), not " ++ spanText total ++ "."
  | .nanToInteger kind => "cannot convert " ++ kind ++ " to integer"
  | .signalingNan => "cannot convert signaling NaN to float"
  | .paramWithoutName => "Procedure parameter requires 'name' field"
  | .paramDirection direction name =>
    "Unknown param type '" ++ direction ++ "' for '" ++ name ++ "'. Valid: IN, OUT, INOUT"
  | .unknownConnection name available =>
    let joined := ", ".intercalate available
    let names := if joined == "" then "none" else joined
    "Unknown connection: " ++ name ++ ". Available: " ++ names
  | .unknownTaskType name available =>
    "Unknown task type: " ++ name ++ ". Available: " ++ ", ".intercalate available
  | .settings fault => fault.message
  | .maxWorkers => "max_workers must be greater than 0"
  | .jsonLine line l => "Invalid JSON on line " ++ natText line ++ ": " ++ l.message
  | .jsonStream file l => "Invalid JSON in " ++ file ++ ": " ++ l.message
  | .separatorExpected file => "Invalid JSON in " ++ file ++ ": expected ',' or ']'"
  | .override item => "Expected Scope.Key=VALUE, got '" ++ item ++ "'"
  | .overrideName name inner => "Invalid variable name '" ++ name ++ "': " ++ inner
  | .nulInPath => "embedded null byte"
  | .pairLength position length =>
    "dictionary update sequence element #" ++ natText position ++ " has length " ++
      natText length ++ "; 2 is required"
  | .unpacked length =>
    if length < 2 then
      "not enough values to unpack (expected 2, got " ++ natText length ++ ")"
    else "too many values to unpack (expected 2)"

/-- A failure of a run. -/
inductive TaskFault
  | invalid (task reason : String)
  | failed (task reason : String)
  | gotoNotFound (target : String) (ids : List String)
  deriving DecidableEq, Repr

/-- What to say about a run. -/
def TaskFault.message : TaskFault → String
  | .invalid task reason => "Task '" ++ task ++ "': " ++ reason
  | .failed task reason => "Task '" ++ task ++ "' failed: " ++ reason
  | .gotoNotFound target ids =>
    "Goto target task '" ++ target ++ "' not found. Available tasks: [" ++
      ", ".intercalate (ids.map quote) ++ "]"

/-- An operation on a value of a kind that does not have it. -/
inductive KindFault
  | keyNotText (typeName : String)
  | notIterable (typeName : String)
  | notText (typeName : String)
  | notSized (typeName : String)
  | notOrdered (operator left right : String)
  | notConvertible (target accepted typeName : String)
  | notJoinable (position : Nat) (typeName : String)
  | notHashable (typeName : String)
  | notStringKeys
  | notDecodable (typeName : String)
  | bytesStart (typeName : String)
  | notPair (position : Nat)
  | notUnpackable (typeName : String)
  | notCallable (typeName : String)
  | argumentMissing (method : String)
  | relativeModule (name : String)
  deriving DecidableEq, Repr

/-- What to say about an operation on a value of the wrong kind. -/
def KindFault.message : KindFault → String
  | .keyNotText typeName => "keys must be str, int, float, bool or None, not " ++ typeName
  | .notIterable typeName => "'" ++ typeName ++ "' object is not iterable"
  | .notText typeName =>
    if typeName == "bytes" || typeName == "bytearray" then
      "cannot use a string pattern on a bytes-like object"
    else "expected string or bytes-like object, got '" ++ typeName ++ "'"
  | .notSized typeName => "object of type '" ++ typeName ++ "' has no len()"
  | .notOrdered operator left right =>
    "'" ++ operator ++ "' not supported between instances of '" ++ left ++ "' and '" ++ right ++
      "'"
  | .notConvertible target accepted typeName =>
    target ++ " argument must be " ++ accepted ++ ", not '" ++ typeName ++ "'"
  | .notJoinable position typeName =>
    "sequence item " ++ natText position ++ ": expected str instance, " ++ typeName ++ " found"
  | .notHashable typeName => "unhashable type: '" ++ typeName ++ "'"
  | .notStringKeys => "keywords must be strings"
  | .notDecodable typeName =>
    "the JSON object must be str, bytes or bytearray, not " ++ typeName
  | .bytesStart typeName =>
    "startswith first arg must be bytes or a tuple of bytes, not " ++ typeName
  | .notPair position =>
    "cannot convert dictionary update sequence element #" ++ natText position ++ " to a sequence"
  | .notUnpackable typeName => "cannot unpack non-iterable " ++ typeName ++ " object"
  | .notCallable typeName => "'" ++ typeName ++ "' object is not callable"
  | .argumentMissing method => method ++ "() missing 1 required positional argument"
  | .relativeModule name =>
    "the 'package' argument is required to perform a relative import for " ++ quote name

/-- An error, by cause. -/
inductive Error
  | malformed (expression : String) (fault : PathFault)
  | missingVariable (scope key : String)
  | config (fault : ConfigFault)
  | condition (fault : ConditionFault)
  | task (fault : TaskFault)
  | value (fault : ValueFault)
  | json (l : Json.Located)
  | encoding (fault : Utf8Fault)
  | failure (text : String)
  | readerClosed
  | file (fault : FileFault) (path : String)
  | workflowMissing (path : String)
  | kind (fault : KindFault)
  | noMember (typeName member : String)
  | noModule (name : String)
  | noPackage (name package : String)
  | noField (name : String)
  | overflow (text : String)
  | interrupt
  deriving DecidableEq, Repr

namespace Error

/-- The name of a variable as expressions write it. -/
def variableName (scope key : String) : String := scope ++ "." ++ key

/-- What an error says. -/
def message : Error → String
  | .malformed expression fault => fault.message expression
  | .missingVariable scope key =>
    "Missing variable: $\x7b" ++ variableName scope key ++ "\x7d"
  | .config fault => fault.message
  | .condition fault => fault.message
  | .task fault => fault.message
  | .value fault => fault.message
  | .json l => l.message
  | .encoding fault => fault.message
  | .failure text => text
  | .readerClosed => "Reader is not open"
  | .file fault path => fault.message path
  | .workflowMissing path => "Workflow file not found at:\n  " ++ path
  | .kind fault => fault.message
  | .noMember typeName member =>
    "'" ++ typeName ++ "' object has no attribute '" ++ member ++ "'"
  | .noModule name => "No module named " ++ quote name
  | .noPackage name package =>
    "No module named " ++ quote name ++ "; " ++ quote package ++ " is not a package"
  | .noField name => quote name
  | .overflow text => text
  | .interrupt => ""

/-- An error of expressions, variables or configurations. -/
def isStoreError : Error → Bool
  | .malformed .. => true
  | .missingVariable .. => true
  | .config _ => true
  | _ => false

/-- An error of values that cannot be read or used; malformed expressions are some of them. -/
def isValueError : Error → Bool
  | .malformed .. => true
  | .value _ => true
  | .json _ => true
  | .encoding _ => true
  | _ => false

/-- An error of the file system. -/
def isFileError : Error → Bool
  | .file .. => true
  | .workflowMissing _ => true
  | _ => false

/-- The interruption by a user, which no handler of failures takes. -/
def isInterrupt : Error → Bool
  | .interrupt => true
  | _ => false

end Error

end Runbook
