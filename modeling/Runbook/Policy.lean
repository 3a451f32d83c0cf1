import Runbook.Text.Blank
import Runbook.Text.Case
import Runbook.Value.Text

/-!
# Policies by name

Reading the policy for absent variables from a value: a policy, or its text in any case with
blanks around it.
-/

namespace Runbook

open Runbook.Text

/-- The policy that a value names. -/
def MissingPolicy.parse (v : Value) : Except Error MissingPolicy :=
  match v with
  | .policy p => .ok p
  | v =>
    match v.text with
    | .error e => .error e
    | .ok given =>
      match MissingPolicy.all.find? (·.text == lower (trim given)) with
      | some p => .ok p
      | none => .error (.value (.policy given))

end Runbook
