import Runbook.Plan.Basic
import Runbook.Value.Key

/-!
# Kinds of tasks

What a task does, by the name of its type.

* `TaskKind.ofName`: the kind of a type name, or an error that lists the names there are.
-/

namespace Runbook

/-- What a task does. -/
inductive TaskKind
  | assign
  | maintain
  | branch
  | readFile
  | callProcedure
  | fanOut
  deriving DecidableEq, Repr

namespace TaskKind

/-- The name of a kind. -/
def name : TaskKind → String
  | .branch => "if"
  | .readFile => "json_file"
  | .fanOut => "parallel"
  | .assign => "set"
  | .callProcedure => "stored_procedure"
  | .maintain => "variables"

/-- The kinds in the order of their names. -/
def all : List TaskKind := [.branch, .readFile, .fanOut, .assign, .callProcedure, .maintain]

/-- The names there are, in order. -/
def names : List String := all.map name

/-- The kind of a name. -/
def ofName (s : String) : Except Error TaskKind :=
  match all.find? (·.name == s) with
  | some k => .ok k
  | none => .error (.value (.unknownTaskType s names))

end TaskKind

/-- A setting that a task must have. -/
def Task.required (t : Task) (setting : String) : Except Error Value :=
  match Entries.field? t.settings setting with
  | some v => .ok v
  | none => .error (.noField setting)

/-- A setting, or null. -/
def Task.setting (t : Task) (name : String) : Value :=
  Entries.field t.settings name

/-- A setting, or a default if it is not given. -/
def Task.settingOr (t : Task) (name : String) (default : Value) : Value :=
  Entries.fieldOr t.settings name default

end Runbook
