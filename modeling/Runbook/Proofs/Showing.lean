import Runbook.Proofs.Checking

/-!
# What a run shows

A console need not take the header of a run, as the names of connections stand in it as they are.
Behind it a run tells only notices whose markup nests: the tasks have been checked before one is
told, and all other text of the user is escaped.

* `Notice.Nests`: a notice has lines that show it, and their markup nests.
* `Run.TellsNested`: a computation that tells only such notices, and what such are made of.
* `Task.run_tellsNested`: **running tasks of known types**, by induction on the tree of tasks.
* `Plan.run_shown`: **what a run tells behind its header is shown** by every console that takes
  markup that nests.
-/

namespace Runbook

open Runbook.Text Runbook.Display

/-- A notice has lines that show it, and their markup nests. -/
def Display.Notice.Nests (n : Notice) : Prop :=
  ∃ lines, n.lines = .ok lines ∧ ∀ s, .markup s ∈ lines → IsNested s

/-- One world comes from another by telling such notices. -/
def World.TellsNested (w v : World) : Prop :=
  ∃ log, v.notices = w.notices ++ log ∧ ∀ n ∈ log, n.Nests

namespace World

variable {u v w : World}

theorem TellsNested.same (h : v.notices = w.notices) : w.TellsNested v :=
  ⟨[], by rw [h, List.append_nil], fun _ hn => absurd hn List.not_mem_nil⟩

theorem TellsNested.trans (h : u.TellsNested v) (h' : v.TellsNested w) : u.TellsNested w := by
  obtain ⟨log, hlog, hnests⟩ := h
  obtain ⟨more, hmore, hrest⟩ := h'
  refine ⟨log ++ more, by rw [hmore, hlog, List.append_assoc], fun n hn => ?_⟩
  rcases List.mem_append.1 hn with hn | hn
  · exact hnests n hn
  · exact hrest n hn

/-- A notice that has lines may be told behind a header. -/
theorem tellsNested_told {n : Notice} (hn : n.FromTasks) {lines : List Line}
    (hlines : n.lines = .ok lines) (w : World) : w.TellsNested (w.told n) := by
  refine ⟨[n], rfl, fun m hm => ?_⟩
  rw [List.mem_singleton.1 hm]
  exact ⟨lines, hlines, Notice.lines_nested hn hlines⟩

end World

/-! ### Computations that tell only markup that nests -/

namespace Run

variable {α β : Type} {x : Run α} {f : α → Run β}

/-- **A computation that tells only markup that nests**, whether it succeeds or fails. -/
def TellsNested (x : Run α) : Prop :=
  ∀ w : World, w.TellsNested (x w).2

theorem Silent.tellsNested (h : x.Silent) : x.TellsNested := fun w => .same (h w).notices

namespace TellsNested

theorem bind (hx : x.TellsNested) (hf : ∀ a, (f a).TellsNested) : (x >>= f).TellsNested :=
  bind_rel World.TellsNested .trans hx hf

theorem attempt (hx : x.TellsNested) : x.attempt.TellsNested := fun w => hx w

protected theorem pure (a : α) : (pure a : Run α).TellsNested := fun _ => .same rfl

theorem fail (e : Error) : (Run.fail e : Run α).TellsNested := fun _ => .same rfl

theorem lift (r : Except Error α) : (liftM r : Run α).TellsNested := fun _ => .same rfl

theorem tell {n : Notice} (hn : n.FromTasks) : (Run.tell n).TellsNested := by
  intro w
  rw [Run.tell]
  cases hlines : n.lines with
  | error e => exact .same rfl
  | ok lines => exact World.tellsNested_told hn hlines w

end TellsNested

end Run

open Run

/-! ### Tasks -/

namespace Task

variable {t : Task} {depth : Nat} {body : Run Outcome}

theorem conclude_tellsNested (t : Task) (depth : Nat) (o : Outcome) :
    (t.conclude depth o).TellsNested := by
  cases o with
  | done output next => exact .bind (.tell rfl) fun _ => .bind (fun _ => .same rfl) fun _ => .pure _
  | failed reason => exact .bind (.tell rfl) fun _ => .bind (fun _ => .same rfl) fun _ => .pure _

theorem settle_tellsNested (h : body.TellsNested) : (settle body).TellsNested := by
  refine .bind (.attempt h) fun result => ?_
  cases result with
  | ok o => exact .pure o
  | error e =>
    dsimp only
    split
    · exact .pure _
    · exact .fail e

theorem announce_tellsNested (ht : t.type ∈ TaskKind.names) (h : body.TellsNested) :
    (t.announce depth body).TellsNested :=
  .bind (.tell ht) fun _ => .bind (settle_tellsNested h) fun o => conclude_tellsNested t depth o

theorem skip_tellsNested (t : Task) (depth : Nat) (reason : String) :
    (t.skip depth reason).TellsNested :=
  .bind (.tell trivial) fun _ => .bind (fun _ => .same rfl) fun _ => .pure _

theorem guarded_tellsNested (ht : t.type ∈ TaskKind.names) (h : body.TellsNested) :
    (t.guarded depth body).TellsNested := by
  refine .bind (fun _ => .same rfl) fun s => ?_
  split
  · exact skip_tellsNested t depth _
  · exact announce_tellsNested ht h
  · split
    · exact announce_tellsNested ht (.pure _)
    · exact .fail _

/-- While a task is doing, only the tasks nested in it tell anything. -/
theorem execute_tellsNested {nested : Run (List NestedResult)} (h : nested.TellsNested)
    (t : Task) (env : Surroundings) (workers : Value) :
    (t.execute env workers (some nested)).TellsNested := by
  by_cases hkind : TaskKind.ofName t.type = .ok .fanOut
  · have hgroup : (fanOut workers (some nested)).TellsNested :=
      .bind (.lift _) fun _ => .bind h fun _ => .lift _
    intro w
    rw [execute, Run.bind_lift hkind]
    exact hgroup w
  · exact (execute_silent t env _ hkind).tellsNested

mutual

/-- **A task of a known type tells only markup that nests**, if the tasks nested in it are of known
types as well, -/
theorem run_tellsNested (env : Surroundings) (workers : Value) : ∀ (t : Task) (depth : Nat),
    (∀ u ∈ t.subtasks, u.type ∈ TaskKind.names) → (t.run env workers depth).TellsNested
  | .mk id type name scope guard onError settings nested, depth, h => by
    have hnested := runAll_tellsNested env workers nested (depth + 1) fun u hu =>
      h u (List.mem_cons_of_mem _ hu)
    rw [run]
    exact guarded_tellsNested (h _ List.mem_cons_self) (execute_tellsNested hnested _ env workers)

/-- and so do such tasks that are run one after another. -/
theorem runAll_tellsNested (env : Surroundings) (workers : Value) : ∀ (ts : List Task)
    (depth : Nat), (∀ u ∈ subtasksAll ts, u.type ∈ TaskKind.names) →
      (runAll env workers depth ts).TellsNested
  | [], depth, _ => by
    rw [runAll]
    exact .pure _
  | t :: ts, depth, h => by
    have hfirst := run_tellsNested env workers t depth fun u hu => h u (List.mem_append_left _ hu)
    have hrest := runAll_tellsNested env workers ts depth fun u hu =>
      h u (List.mem_append_right _ hu)
    rw [runAll]
    exact .bind (.attempt hfirst) fun _ => .bind hrest fun _ => .pure _

end

theorem mem_subtasksAll {t u : Task} {ts : List Task} (ht : t ∈ ts) (hu : u ∈ t.subtasks) :
    u ∈ subtasksAll ts := by
  induction ts with
  | nil => cases ht
  | cons v ts ih =>
    rw [subtasksAll]
    rcases List.mem_cons.1 ht with rfl | ht
    · exact List.mem_append_left _ hu
    · exact List.mem_append_right _ (ih ht)

end Task

/-! ### Runs of plans -/

namespace Plan

variable {plan : Plan} {env : Surroundings} {fuel : Nat} {w : World}

/-- The tasks of a checked plan are of known types, at any depth. -/
theorem type_mem_names (h : Task.checkAll plan.tasks = .ok ()) {t : Task}
    (ht : t ∈ Task.subtasksAll plan.tasks) : t.type ∈ TaskKind.names := by
  by_contra htype
  obtain ⟨u, e, hfirst⟩ := exists_firstFault ⟨t, ht, _, .type htype⟩
  cases hfirst.checkAll.symm.trans h

theorem step_tellsNested (plan : Plan) (env : Surroundings) (i : Nat) {t : Task}
    (h : ∀ u ∈ t.subtasks, u.type ∈ TaskKind.names) : (plan.step env i t).TellsNested := by
  refine .bind (Task.run_tellsNested env _ t 0 h) fun o => .bind (.lift _) fun stop => ?_
  cases stop with
  | none => exact .lift _
  | some e => exact .fail e

theorem flow_tellsNested (h : Task.checkAll plan.tasks = .ok ()) (env : Surroundings) (fuel : Nat) :
    ∀ i, (plan.flow env fuel i).TellsNested := by
  induction fuel with
  | zero =>
    intro i
    unfold flow
    split
    · exact .pure _
    · exact .pure _
    · contradiction
  | succ fuel ih =>
    intro i
    unfold flow
    split
    · exact .pure _
    · contradiction
    · rename_i t fuel' ht hfuel
      obtain rfl := Nat.succ.inj hfuel
      have htypes : ∀ u ∈ t.subtasks, u.type ∈ TaskKind.names := fun u hu =>
        type_mem_names h (Task.mem_subtasksAll (List.mem_of_getElem? ht) hu)
      exact .bind (step_tellsNested plan env i htypes) ih

theorem perform_tellsNested (plan : Plan) (env : Surroundings) (fuel : Nat) :
    (plan.perform env fuel).TellsNested := by
  cases hchecked : Task.checkAll plan.tasks with
  | error e =>
    intro w
    rw [perform_of_fault hchecked]
    exact .same rfl
  | ok _ =>
    unfold perform
    exact .bind (.lift _) fun _ => flow_tellsNested hchecked env fuel 0

theorem errorNotice_fromTasks (e : Error) : (errorNotice e).FromTasks := by
  unfold errorNotice
  split
  · trivial
  · trivial

theorem closed_tellsNested (plan : Plan) (w : World) : w.TellsNested (plan.closed w) := by
  obtain ⟨_, hlines⟩ := Notice.summary_shown w.completed w.failed w.skipped
  have hsummary : (Notice.summary w.completed w.failed w.skipped Task.noTime).FromTasks := rfl
  exact (World.tellsNested_told hsummary hlines w).trans (.same rfl)

/-- Behind its header a run tells only markup that nests. -/
theorem run_tellsNested (hshown : w.console.showHeader plan = .ok ()) (env : Surroundings)
    (fuel : Nat) : (w.told (.header plan)).TellsNested (plan.run env fuel w).2 := by
  have htasks := plan.perform_tellsNested env fuel (w.told (.header plan))
  rw [run_eq hshown]
  rcases hperform : plan.perform env fuel (w.told (.header plan)) with ⟨e | ended, v⟩
  · rw [hperform] at htasks
    obtain ⟨_, hlines⟩ := errorNotice_shown e
    have herror := World.tellsNested_told (errorNotice_fromTasks e) hlines v
    exact (htasks.trans herror).trans (closed_tellsNested plan _)
  · rw [hperform] at htasks
    cases ended with
    | true => exact htasks.trans (closed_tellsNested plan v)
    | false => exact htasks

/-- **What a run tells behind its header is shown** by every console that takes markup that nests:
such a console refuses the header of a run, or nothing that the run tells. -/
theorem run_shown {store : Store} {files : FileTree} {console : Console}
    (hconsole : console.TakesNested) (plan : Plan) (env : Surroundings) (fuel : Nat) :
    (∃ e, console.showHeader plan = .error e ∧
      (plan.run env fuel (.start store files console)).2.notices = []) ∨
    ∃ log, (plan.run env fuel (.start store files console)).2.notices = .header plan :: log ∧
      ∀ n ∈ log, ∃ lines, n.lines = .ok lines ∧ console.showLines lines = .ok () := by
  cases hshown : console.showHeader plan with
  | error e =>
    refine .inl ⟨e, rfl, ?_⟩
    rw [run_refused_header (w := .start store files console) hshown]
    rfl
  | ok _ =>
    obtain ⟨log, hlog, hnests⟩ :=
      run_tellsNested (w := .start store files console) hshown env fuel
    refine .inr ⟨log, hlog, fun n hn => ?_⟩
    obtain ⟨lines, hlines, hnested⟩ := hnests n hn
    exact ⟨lines, hlines, Console.showLines_ok hconsole hnested⟩

end Plan

end Runbook
