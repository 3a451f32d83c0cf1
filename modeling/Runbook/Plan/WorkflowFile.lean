import Runbook.Plan.Reading

/-!
# Workflow files

What is found where a workflow file is looked for, and the plan in it.

* `WorkflowFile.fault?`: why a file is no workflow, if it is none.
* `WorkflowFile.load`: the plan in a workflow file.
-/

namespace Runbook

/-- What is found at the path of a workflow file. -/
inductive WorkflowFile
  | missing
  | directory
  | malformed
  | content (v : Value)

namespace WorkflowFile

/-- The version of workflow files. -/
def version : Value := .int 1

/-- Why the content of a workflow file is no workflow. -/
def contentFault? (v : Value) : Option DocumentFault :=
  match v.dict? with
  | none => some .notDictionary
  | some entries =>
    if !(entries.field "type").isText workflowType then some .wrongType
    else if !(entries.field "version").sameScalar version then some .wrongVersion
    else none

/-- Why what is found at a path is no workflow. -/
def fault? (path : String) : WorkflowFile → Option DocumentFault
  | .missing => some (.missing path)
  | .directory => some (.notFile path)
  | .malformed => some .malformed
  | .content v => contentFault? v

/-- The plan in the file at a path. -/
def load (path : String) (f : WorkflowFile) : Except Error Plan :=
  match f, f.fault? path with
  | .missing, _ => .error (.workflowMissing path)
  | .content v, none => Plan.ofValue v
  | _, some fault => .error (configError (.document fault))
  | _, none => .error (configError (.document .malformed))

end WorkflowFile

end Runbook
