import Runbook.Proofs.Accounting
import Runbook.CommandLine.Session

/-!
# What the summary says of a run

The last that a run tells is whether the workflow is complete or has failed, and it is the count of
failed tasks that decides which. Whether the run succeeded, and with it the exit code of a session,
is decided by the error that its tasks have ended with. The two agree on most runs. They do not
where a failure was gone on behind, at any depth, and where a run without a failed task ends in an
error.

* `Execution.Failing`, `kept_counts`: the tasks that fail are those that are counted.
* `summary_says_iff`: what the summary says, by that count.
* `Report.TellsOutcome`: the summary tells whether the run succeeded.
* `tellsOutcome_iff`: **when it does**, by the executions that failed.
-/

namespace Runbook

open Runbook.Text Runbook.Display

/-! ### Counting failures -/

/-- **Failures are counted**: in one world as many were counted as in another, or more, and more
exactly if there was a failure in between. -/
structure World.Counts (w : World) (failing : Prop) (v : World) : Prop where
  le : w.failed ≤ v.failed
  lt_iff : w.failed < v.failed ↔ failing

namespace World.Counts

variable {u v w : World} {p q : Prop}

theorem same (h : v.failed = w.failed) (hnot : ¬ p) : w.Counts p v :=
  ⟨h.ge, by rw [h]; exact iff_of_false (Nat.lt_irrefl _) hnot⟩

theorem more (h : w.failed < v.failed) (hp : p) : w.Counts p v := ⟨h.le, iff_of_true h hp⟩

theorem append (h : u.Counts p v) (h' : v.Counts q w) : u.Counts (p ∨ q) w := by
  have hle := h.le
  have hle' := h'.le
  refine ⟨hle.trans hle', ?_⟩
  rw [← h.lt_iff, ← h'.lt_iff]
  omega

theorem congr (h : w.Counts p v) (heq : p ↔ q) : w.Counts q v := ⟨h.le, h.lt_iff.trans heq⟩

end World.Counts

/-- **A failing execution**: what its task comes to is a failure. -/
def Execution.Failing (env : Surroundings) (workers : Value) (x : Execution) : Prop :=
  ∃ reason, (x.task.run env workers x.depth x.before).1 = .ok (.failed reason)

namespace Task

open Execution

variable {env : Surroundings} {workers : Value} {t : Task} {depth : Nat} {w : World}

theorem conclude_counts (hshown : t.IsShown) (depth : Nat) (o : Outcome) (w : World) :
    ∃ v, t.conclude depth o w = (.ok o, v) ∧ w.Counts (∃ reason, o = .failed reason) v := by
  cases o with
  | done output next =>
    obtain ⟨_, hlines⟩ := result_shown hshown true (some output) none depth
    exact ⟨_, Run.bind_ok (Run.tell_ok hlines w), .same rfl (by simp)⟩
  | failed reason =>
    obtain ⟨_, hlines⟩ := result_shown hshown false none (some reason) depth
    exact ⟨_, Run.bind_ok (Run.tell_ok hlines w), .more (Nat.lt_succ_self _) ⟨reason, rfl⟩⟩

/-- An announced task counts what it comes to, behind what was counted while it is doing. -/
theorem announce_counts (hshown : t.IsShown) {body : Run Outcome} {p : Prop}
    (hbody : (w.told (.start t depth)).Counts p (body (w.told (.start t depth))).2) :
    w.Counts ((∃ reason, (t.announce depth body w).1 = .ok (.failed reason)) ∨ p)
      (t.announce depth body w).2 := by
  obtain ⟨_, hstart⟩ := start_shown hshown depth
  have hbegun : w.Counts False (w.told (.start t depth)) := .same rfl not_false
  rcases settle_cases body (w.told (.start t depth)) with ⟨-, o, hsettle⟩ | ⟨-, e, hsettle⟩
  · obtain ⟨v, hconclude, hcounts⟩ :=
      conclude_counts hshown depth o (body (w.told (.start t depth))).2
    rw [announce, Run.bind_ok (Run.tell_ok hstart w), Run.bind_ok hsettle, hconclude]
    exact ((hbegun.append hbody).append hcounts).congr (by simp [or_comm])
  · rw [announce_error hshown hsettle]
    exact (hbegun.append hbody).congr (by simp)

/-- What a task counts while it is doing: the tasks nested in it count it. -/
theorem doing_counts (hnested : w.Counts (MeetsAmong env workers (Failing env workers) (depth + 1)
      t.nested w) (runAll env workers (depth + 1) t.nested w).2) :
    w.Counts (TaskKind.ofName t.type = .ok .fanOut ∧ checkWorkers workers = .ok () ∧
        MeetsAmong env workers (Failing env workers) (depth + 1) t.nested w)
      (t.doing env workers depth w).2 := by
  rcases t.doing_cases env workers depth w with ⟨hkind, hworkers, hworld⟩ | ⟨hnot, hsame⟩
  · rw [hworld]
    exact hnested.congr ⟨fun h => ⟨hkind, hworkers, h⟩, fun h => h.2.2⟩
  · exact .same hsame.failed fun h => hnot ⟨h.1, h.2.1⟩

/-- The step of `kept_counts` for a task that does not begin: it is counted by itself. -/
theorem counts_of_not_begins (hnot : ¬ Begins ⟨depth, t, w⟩)
    (h : w.Counts (∃ reason, (t.run env workers depth w).1 = .ok (.failed reason))
      (t.run env workers depth w).2) :
    w.Counts (Meets env workers (Failing env workers) ⟨depth, t, w⟩)
      (t.run env workers depth w).2 := by
  have hmeets : Meets env workers (Failing env workers) ⟨depth, t, w⟩ ↔
      Failing env workers ⟨depth, t, w⟩ := meets_of_not_begins hnot
  rw [hmeets]
  exact h

/-- **What running a task counts**: a failure exactly if one is met. -/
theorem kept_counts (env : Surroundings) (workers : Value) :
    Kept env workers (Failing env workers) World.Counts where
  nil w := .same rfl not_false
  append := World.Counts.append
  task t depth w hnested := by
    rcases t.run_shapes env workers depth w with
      ⟨hbegins, hrun⟩ | ⟨hnot, ⟨e, hrun⟩ | ⟨hshown, reason, hrun⟩ | ⟨hshown, reason, hrun⟩⟩
    · have hcounts := announce_counts hbegins.shown
        (doing_counts (hnested (w.told (.start t depth))))
      rw [← hrun] at hcounts
      have hmeets : Meets env workers (Failing env workers) ⟨depth, t, w⟩ ↔ _ :=
        meets_of_begins hbegins
      rw [hmeets]
      exact hcounts
    · refine counts_of_not_begins hnot ?_
      rw [hrun]
      exact .same rfl (by simp)
    · -- a guard that fails is the failure of its task
      have hbody : (w.told (.start t depth)).Counts False
          ((pure (.failed reason) : Run Outcome) (w.told (.start t depth))).2 :=
        .same rfl not_false
      have hcounts := announce_counts hshown hbody
      rw [← hrun, or_false] at hcounts
      exact counts_of_not_begins hnot hcounts
    · obtain ⟨_, hlines⟩ := skipped_shown hshown reason depth
      have hskip : t.skip depth reason w = _ := Run.bind_ok (Run.tell_ok hlines w)
      refine counts_of_not_begins hnot ?_
      rw [hrun, hskip]
      exact .same rfl (by rintro ⟨_, ⟨⟩⟩)

end Task

/-! ### What the summary says -/

namespace Display.Notice

/-- What an outcome is told by: that the workflow is complete, or that it has failed. -/
def outcomeMark : Bool → String
  | true => "[green]✓ Workflow complete[/green]"
  | false => "[red]✗ Workflow failed[/red]"

/-- A notice has a line that begins with a text. -/
def Says (n : Notice) (content : String) : Prop :=
  ∃ lines, n.lines = .ok lines ∧ ∃ rest, Line.markup (content ++ rest) ∈ lines

/-- The line of a summary that tells the outcome: the count of failures decides. -/
theorem summary_lines (completed failed skipped : Int) : ∃ rest,
    (summary completed failed skipped Task.noTime).lines = .ok [blankLine,
      .markup (String.ofList (List.replicate 40 '─')),
      .markup (outcomeMark (decide (failed = 0)) ++ rest), blankLine] := by
  obtain ⟨time, htime, -⟩ := Notice.exists_time
  have hcomplete : "[green]✓ Workflow complete[/green] | " = outcomeMark true ++ " | " := by decide
  have hfailed : "[red]✗ Workflow failed[/red] | " = outcomeMark false ++ " | " := by decide
  simp only [lines, summaryLines, htime, hcomplete, hfailed]
  by_cases hnone : failed = 0
  · simp only [if_pos hnone, decide_eq_true hnone, String.append_assoc]
    exact ⟨_, rfl⟩
  · simp only [if_neg hnone, decide_eq_false hnone, String.append_assoc]
    exact ⟨_, rfl⟩

/-- The marks of different outcomes begin differently. -/
theorem outcomeMark_inj {success other : Bool} {rest more : String}
    (h : outcomeMark success ++ rest = outcomeMark other ++ more) : success = other := by
  have hchars := congrArg String.toList h
  cases success <;> cases other <;> simp [outcomeMark, String.toList_append] at hchars ⊢

/-- A mark begins neither an empty line nor a rule. -/
theorem outcomeMark_ne (success : Bool) (rest : String) : outcomeMark success ++ rest ≠ "" ∧
    outcomeMark success ++ rest ≠ String.ofList (List.replicate 40 '─') := by
  have hhead : (outcomeMark success ++ rest).toList.head? = some '[' := by
    cases success <;> simp [outcomeMark, String.toList_append]
  constructor
  · intro h
    simp [h] at hhead
  · intro h
    rw [h] at hhead
    simp at hhead

/-- **The summary says that the workflow is complete** if no failure was counted, and that it has
failed if one was. -/
theorem summary_says_iff {completed failed skipped : Int} {success : Bool} :
    (summary completed failed skipped Task.noTime).Says (outcomeMark success) ↔
      success = decide (failed = 0) := by
  obtain ⟨rest, hlines⟩ := summary_lines completed failed skipped
  constructor
  · rintro ⟨lines, hsame, more, hmem⟩
    rw [hlines] at hsame
    cases hsame
    obtain ⟨hblank, hrule⟩ := outcomeMark_ne success more
    simp only [List.mem_cons, List.not_mem_nil, blankLine, Line.markup.injEq, hblank, hrule,
      false_or, or_false] at hmem
    exact outcomeMark_inj hmem
  · rintro rfl
    exact ⟨_, hlines, rest, by simp⟩

end Display.Notice

namespace Plan

open Execution Notice

variable {plan : Plan} {env : Surroundings} {fuel : Nat} {w w' : World} {report : Report}

/-- **The summary tells the outcome**: the last that is told is that the workflow is complete, if
the run has succeeded, and that it has failed, if it has not. -/
def Report.TellsOutcome (report : Report) (log : List Notice) : Prop :=
  ∀ success, (∃ n ∈ log.getLast?, n.Says (outcomeMark success)) ↔ report.success = success

/-- A task fails in a run, at any depth. -/
def MeetsFailure (plan : Plan) (env : Surroundings) (fuel : Nat) (w : World) : Prop :=
  ∃ v ∈ plan.course env fuel w, Meets env plan.maxWorkers
    (Failing env plan.maxWorkers) ⟨0, v.task, v.before⟩

/-- The summary is the last that a run tells. -/
theorem getLast?_run (h : plan.run env fuel w = (.ok (some report), w')) :
    w'.notices.getLast? =
      some (.summary report.completed report.failed report.skipped Task.noTime) := by
  obtain ⟨-, ending, v, -, rfl, rfl⟩ := ends_of_run h
  exact List.getLast?_concat

/-- What a run counts as failed: **there was a failure exactly if one is met**. -/
theorem failed_pos_iff {store : Store} {files : FileTree} {console : Console}
    (h : plan.run env fuel (.start store files console) = (.ok (some report), w')) :
    0 < report.failed ↔ plan.MeetsFailure env fuel (.start store files console) := by
  obtain ⟨hshown, ending, v, hends, rfl, rfl⟩ := ends_of_run h
  have hcounts := hends.kept hshown (Task.kept_counts env plan.maxWorkers)
  have htold : (toldEnding v ending).failed = v.failed := by cases ending <;> rfl
  show 0 < (toldEnding v ending).failed ↔ _
  rw [htold]
  exact hcounts.lt_iff

/-- The last notice of a run says what the count of failures decides. -/
theorem says_last_iff (h : plan.run env fuel w = (.ok (some report), w')) (success : Bool) :
    (∃ n ∈ w'.notices.getLast?, n.Says (outcomeMark success)) ↔
      success = decide (report.failed = 0) := by
  rw [getLast?_run h]
  simp [summary_says_iff]

/-- The summary tells the outcome exactly if no failure was counted and the run has succeeded, or
one was and it has not. -/
theorem tellsOutcome_iff_failed (h : plan.run env fuel w = (.ok (some report), w')) :
    report.TellsOutcome w'.notices ↔ (report.success = true ↔ report.failed = 0) := by
  have hverdict : report.TellsOutcome w'.notices ↔ report.success = decide (report.failed = 0) := by
    constructor
    · intro htells
      exact (htells _).1 ((says_last_iff h _).2 rfl)
    · intro hsame success
      rw [says_last_iff h, hsame, eq_comm]
  rw [hverdict]
  cases report.success <;> simp

/-- The exit code of a session is zero exactly if its run has succeeded. -/
theorem exitCode_iff (h : plan.run env fuel w = (.ok (some report), w')) {showVars : Bool}
    {code : Nat} {v : World}
    (hsession : CommandLine.Session.runAndShow plan env showVars fuel w = (.ok (some code), v)) :
    code = 0 ↔ report.success = true := by
  rw [CommandLine.Session.runAndShow, Run.bind_ok h] at hsession
  have hcode : code = if report.success then 0 else 1 := by
    cases showVars with
    | false =>
      cases hsession
      rfl
    | true =>
      have hshown : (Run.tell (.listing report.snapshot) >>= fun _ =>
          (pure (some (if report.success then 0 else 1)) : Run (Option Nat))) w' =
          (.ok (some code), v) := hsession
      obtain ⟨_, _, -, hexit⟩ := Run.exists_of_bind_ok hshown
      cases hexit
      rfl
  rw [hcode]
  cases report.success <;> simp

/-- **When the summary tells the outcome.** A session ends with the exit code zero exactly if its
run has succeeded. The summary tells whether it has exactly if it has succeeded without a failed
task, at any depth, or has not succeeded behind one. A failure that was gone on behind, and an error
of a run without a failure, whether of faulty settings, a target that there is not, an interruption
or any other, are what it tells wrong. -/
theorem tellsOutcome_iff {store : Store} {files : FileTree} {console : Console}
    (h : plan.run env fuel (.start store files console) = (.ok (some report), w')) :
    (∀ showVars code v,
      CommandLine.Session.runAndShow plan env showVars fuel (.start store files console) =
        (.ok (some code), v) → (code = 0 ↔ report.success = true)) ∧
    (report.TellsOutcome w'.notices ↔
      (report.success = true ↔ ¬ plan.MeetsFailure env fuel (.start store files console))) := by
  refine ⟨fun _ _ _ hsession => exitCode_iff h hsession, ?_⟩
  rw [tellsOutcome_iff_failed h, ← failed_pos_iff h, Nat.pos_iff_ne_zero, not_not]

/-- The summary tells that no task has failed behind the tasks that clear the variables. -/
theorem tellsOutcome_cleared : ∃ report w', groupRun [clearTask] = (.ok (some report), w') ∧
    report.success = true ∧ report.TellsOutcome w'.notices := by
  have hfigures : figures (groupRun [clearTask]) = some (none, 2, 0, 2) := by decide +kernel
  obtain ⟨report, w', hrun, herror, -, hfailed, -⟩ := exists_of_figures hfigures
  have hsuccess : report.success = true := by rw [Report.success, herror]; rfl
  have hnone : ¬ (groupPlan [clearTask]).MeetsFailure ⟨⟨"", []⟩, [], []⟩ 2
      (.start (.empty .keepAsIs) ⟨[], []⟩) := by
    rw [← failed_pos_iff hrun, hfailed]
    exact Nat.lt_irrefl 0
  exact ⟨report, w', hrun, hsuccess, (tellsOutcome_iff hrun).2.2 (iff_of_true hsuccess hnone)⟩

/-- A plan of one task of a type that there is not. -/
def unknownPlan : Plan :=
  { groupPlan [] with tasks := [.mk "a" "teleport" .null .null .null .stop [] []] }

/-- **A run that has failed, told as complete**: the type of its task is refused before any task can
fail. -/
theorem unknownPlan_not_tellsOutcome : ∃ report w',
    unknownPlan.run ⟨⟨"", []⟩, [], []⟩ 1 (.start (.empty .keepAsIs) ⟨[], []⟩) =
      (.ok (some report), w') ∧
    report.success = false ∧ (∃ n ∈ w'.notices.getLast?, n.Says (outcomeMark true)) ∧
      ¬ report.TellsOutcome w'.notices := by
  have hfigures : figures (unknownPlan.run ⟨⟨"", []⟩, [], []⟩ 1
      (.start (.empty .keepAsIs) ⟨[], []⟩)) =
      some (some ("Task 'teleport #a': Unknown task type: teleport. " ++
        "Available: if, json_file, parallel, set, stored_procedure, variables"), 0, 0, 0) := by
    decide +kernel
  obtain ⟨report, w', hrun, herror, -, hfailed, -⟩ := exists_of_figures hfigures
  have hsuccess : report.success = false := by rw [Report.success, herror]; rfl
  have hcomplete : ∃ n ∈ w'.notices.getLast?, n.Says (outcomeMark true) :=
    (says_last_iff hrun true).2 (by rw [hfailed]; rfl)
  refine ⟨report, w', hrun, hsuccess, hcomplete, fun htells => ?_⟩
  rw [(htells true).1 hcomplete] at hsuccess
  cases hsuccess

/-! ### Runs that are told right, and wrong -/

/-- **A run that a failed task stops** is told as failed. -/
theorem tellsOutcome_of_stopped {store : Store} {files : FileTree} {console : Console} {v : Turn}
    (h : plan.run env fuel (.start store files console) = (.ok (some report), w'))
    (hv : v ∈ plan.course env fuel (.start store files console)) (hfails : plan.Fails env v)
    (hstop : v.task.onError = .stop) : report.TellsOutcome w'.notices := by
  have hmeets : plan.MeetsFailure env fuel (.start store files console) :=
    ⟨v, hv, _, .self _, hfails⟩
  have hfailed : report.failed ≠ 0 := Nat.pos_iff_ne_zero.1 ((failed_pos_iff h).2 hmeets)
  rw [tellsOutcome_iff_failed h]
  refine iff_of_false (fun hsuccess => ?_) hfailed
  obtain ⟨hshown, ending, left, hends, rfl, rfl⟩ := ends_of_run h
  cases hends with
  | failed _ => cases hsuccess
  | passed hperform =>
    cases hchecked : Task.checkAll plan.tasks with
    | error e =>
      rw [course_of_fault hchecked] at hv
      cases hv
    | ok _ =>
      have hwalk := walk_of_checked hshown hchecked env fuel
      obtain ⟨-, e, hend⟩ := hwalk.stops v hv hfails hstop
      rw [hperform] at hend
      cases hend

/-- **A run that ends in an error before a task has failed** is told as complete. -/
theorem not_tellsOutcome_of_error {store : Store} {files : FileTree} {console : Console}
    (h : plan.run env fuel (.start store files console) = (.ok (some report), w'))
    (herror : report.success = false)
    (hnone : ¬ plan.MeetsFailure env fuel (.start store files console)) :
    ¬ report.TellsOutcome w'.notices := by
  have hfailed : report.failed = 0 := by
    rw [← failed_pos_iff h] at hnone
    omega
  rw [tellsOutcome_iff_failed h, herror, hfailed]
  simp

end Plan

end Runbook
