import Runbook.Proofs.Failures

/-!
# How runs end

The tasks of a run end past the last place of the plan, or with an error. Behind both the run does
the same: it tells the error if there is one, takes its report, tells the summary, and clears the
variables if the plan asks for it.

* `Plan.Ends`: how the tasks of a run end, and the world that they leave.
* `run_of_ends`, `ends_of_run`: **a run has a report exactly if its tasks end**, and which.
* `Ends.left_eq`: the world that the tasks leave is the one behind the last turn.
-/

namespace Runbook

open Runbook.Display

namespace Plan

variable {plan : Plan} {env : Surroundings} {fuel : Nat} {w w' v : World} {ending : Option Error}

/-- **How the tasks of a run end**, and the world that they leave: past the last place, or with an
error. -/
inductive Ends (plan : Plan) (env : Surroundings) (fuel : Nat) (w : World) :
    Option Error → World → Prop
  | passed {v : World} (h : plan.perform env fuel (w.told (.header plan)) = (.ok true, v)) :
    Ends plan env fuel w none v
  | failed {e : Error} {v : World}
    (h : plan.perform env fuel (w.told (.header plan)) = (.error e, v)) :
    Ends plan env fuel w (some e) v

/-- The world in which an ending has been told: an error is, the end of the plan is not. -/
def toldEnding (w : World) : Option Error → World
  | none => w
  | some e => w.told (errorNotice e)

/-- **A run whose tasks end has a report**, however they end. -/
theorem run_of_ends (hshown : w.console.showHeader plan = .ok ())
    (h : plan.Ends env fuel w ending v) :
    plan.run env fuel w = (.ok (some (reportOn (ending.map errorText) (toldEnding v ending))),
      plan.closed (toldEnding v ending)) := by
  rw [run_eq hshown]
  cases h with
  | passed h =>
    rw [h]
    rfl
  | failed h =>
    rw [h]
    rfl

/-- A run whose tasks have not ended has no report. -/
theorem run_unended (hshown : w.console.showHeader plan = .ok ())
    (h : plan.perform env fuel (w.told (.header plan)) = (.ok false, v)) :
    plan.run env fuel w = (.ok none, v) := by
  rw [run_eq hshown, h]

/-- The tasks of a run end, or they have not ended yet. -/
theorem ends_or_unended (plan : Plan) (env : Surroundings) (fuel : Nat) (w : World) :
    (∃ ending v, plan.Ends env fuel w ending v) ∨
      ∃ v, plan.perform env fuel (w.told (.header plan)) = (.ok false, v) := by
  rcases hperform : plan.perform env fuel (w.told (.header plan)) with ⟨e | ended, v⟩
  · exact .inl ⟨some e, v, .failed hperform⟩
  · cases ended with
    | true => exact .inl ⟨none, v, .passed hperform⟩
    | false => exact .inr ⟨v, rfl⟩

/-- **The tasks of a run with a report have ended**, behind its header. -/
theorem ends_of_run {report : Report} (h : plan.run env fuel w = (.ok (some report), w')) :
    w.console.showHeader plan = .ok () ∧ ∃ ending v, plan.Ends env fuel w ending v ∧
      report = reportOn (ending.map errorText) (toldEnding v ending) ∧
      w' = plan.closed (toldEnding v ending) := by
  have hshown := shown_of_run h
  refine ⟨hshown, ?_⟩
  rcases plan.ends_or_unended env fuel w with ⟨ending, v, hends⟩ | ⟨v, hunended⟩
  · have hrun := (run_of_ends hshown hends).symm.trans h
    cases hrun
    exact ⟨ending, v, hends, rfl, rfl⟩
  · have hrun := (run_unended hshown hunended).symm.trans h
    cases hrun

theorem Ends.world (h : plan.Ends env fuel w ending v) :
    (plan.perform env fuel (w.told (.header plan))).2 = v := by
  cases h with
  | passed h => rw [h]
  | failed h => rw [h]

end Plan

end Runbook
