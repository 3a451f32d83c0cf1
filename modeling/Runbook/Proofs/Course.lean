import Mathlib.Data.List.Chain
import Mathlib.Data.List.Nodup
import Runbook.Plan.Reading
import Runbook.Proofs.Consoles
import Runbook.Run.Flow

/-!
# The course of a run

The top-level tasks that a run of a plan executes one after another, as turns: each with its place,
and with the world that it begins in.

* `Plan.turns`, `Plan.course`: the turns of a run.
* `run_ensures`: only a branching task names a task to go on with, and it is one of its targets.
* `step_leads`: where one turn leads.
* `Walk`: a run as its turns, by induction on which the course is described.
* `Untold`: a run whose header is refused, which executes nothing.
* `course_follows_graph`: **every run follows the flow graph of its plan**, and ends if all targets
  lie ahead.
-/

namespace Runbook

open Runbook.Text Runbook.Display

/-- The task that an outcome names to go on with. -/
def Outcome.next? : Outcome → Option String
  | .done _ next => next
  | .failed _ => none

/-! ### What names a task to go on with -/

namespace Task

variable {t : Task} {env : Surroundings}

/-- An outcome that names no task to go on with. -/
def Plain (o : Outcome) : Prop := o.next? = none

theorem assign_ensures (t : Task) : t.assign.Ensures Plain := by
  unfold assign
  refine .bind fun _ => .bind fun _ => .bind fun _ => .bind fun _ => .bind fun plain => ?_
  split
  · exact .bind fun _ => .pure rfl
  · split
    · exact .bind fun _ => .pure rfl
    · exact .fail

theorem maintain_ensures (t : Task) (env : Surroundings) : (t.maintain env).Ensures Plain := by
  unfold maintain
  refine .bind fun action => ?_
  split
  · unfold removeNames
    exact .bind fun _ => .bind fun _ => .bind fun _ => .pure rfl
  split
  · unfold clearAll
    exact .bind fun _ => .bind fun _ => .pure rfl
  · unfold exportAll
    refine .bind fun _ => .bind fun _ => .bind fun _ => .bind fun _ => .bind fun _ =>
      .bind fun r => ?_
    split
    · split
      · exact .pure rfl
      · exact .fail
    · split
      · exact .fail
      · exact .pure rfl

theorem readFile_ensures (t : Task) (env : Surroundings) : (t.readFile env).Ensures Plain := by
  unfold readFile
  refine .bind fun _ => .bind fun _ => .bind fun _ => .bind fun _ => .bind fun _ => .bind fun _ =>
    .bind fun rows => ?_
  split
  · exact .pure rfl
  · split
    · exact .pure rfl
    · exact .fail
  · exact .bind fun _ => .bind fun _ => .pure rfl

theorem callProcedure_ensures (t : Task) (env : Surroundings) :
    (t.callProcedure env).Ensures Plain := by
  unfold callProcedure
  refine .bind fun s => ?_
  split
  · split
    · exact .pure rfl
    · exact .fail
  refine .bind fun _ => .bind fun connection => ?_
  split
  · split
    · exact .fail
    · split
      · exact .pure rfl
      · exact .pure rfl
  · unfold callOver
    refine .bind fun _ => .bind fun settled => ?_
    split
    · exact .pure rfl
    · refine .bind fun _ => ?_
      unfold publish
      exact .bind fun _ => .pure rfl

theorem joinOutcomes_plain {results : List NestedResult} {o : Outcome}
    (h : joinOutcomes results = .ok o) : Plain o := by
  unfold joinOutcomes at h
  split at h
  · cases h
  rcases hfailures : results.mapM nestedFailure? with e | failures
  · rw [hfailures] at h
    cases h
  · rw [hfailures] at h
    simp only [bind, Except.bind] at h
    split at h
    · cases h
      rfl
    · cases h
      rfl

theorem fanOut_ensures (workers : Value) (nested : Option (Run (List NestedResult))) :
    (fanOut workers nested).Ensures Plain := by
  unfold fanOut
  split
  · exact .pure rfl
  · exact .bind fun _ => .bind fun _ => .lift fun _ h => joinOutcomes_plain h

/-- An outcome of a task that names a task to go on with only if the task branches, and then one of
its targets. -/
def Names (t : Task) (o : Outcome) : Prop :=
  ∀ id, o.next? = some id →
    TaskKind.ofName t.type = .ok .branch ∧ ∃ satisfied, t.branchTarget satisfied = .ok (some id)

theorem Plain.names {o : Outcome} (h : Plain o) : t.Names o := by
  intro id hid
  rw [Plain.eq_1] at h
  rw [h] at hid
  cases hid

theorem branch_ensures (hkind : TaskKind.ofName t.type = .ok .branch) :
    t.branch.Ensures t.Names := by
  unfold branch
  refine .bind fun s => ?_
  split
  · exact .pure (Plain.names rfl)
  · exact .fail
  · rename_i verdict hverdict
    refine .bind fun _ =>
      .bind_of (.lift (p := fun next => t.branchTarget verdict.satisfied = .ok next)
        fun next hnext => hnext) fun next hnext => .pure ?_
    intro id hid
    refine ⟨hkind, verdict.satisfied, ?_⟩
    rw [hnext]
    exact congrArg _ hid

theorem execute_ensures (t : Task) (env : Surroundings) (workers : Value)
    (nested : Option (Run (List NestedResult))) :
    (t.execute env workers nested).Ensures t.Names := by
  unfold execute
  refine .bind_of (.lift (p := fun kind => TaskKind.ofName t.type = .ok kind) fun _ h => h)
    fun kind hkind => ?_
  cases kind with
  | assign => exact t.assign_ensures.imp fun _ => Plain.names
  | maintain => exact (t.maintain_ensures env).imp fun _ => Plain.names
  | branch => exact branch_ensures hkind
  | readFile => exact (t.readFile_ensures env).imp fun _ => Plain.names
  | callProcedure => exact (t.callProcedure_ensures env).imp fun _ => Plain.names
  | fanOut => exact (fanOut_ensures workers nested).imp fun _ => Plain.names

theorem settle_ensures {body : Run Outcome} (h : body.Ensures t.Names) :
    (settle body).Ensures t.Names := by
  unfold settle
  refine .bind_of h.attempt fun r hr => ?_
  cases r with
  | ok o => exact .pure (hr o rfl)
  | error e =>
    simp only
    split
    · exact .pure (Plain.names rfl)
    · exact .fail

theorem conclude_ensures (t : Task) (depth : Nat) (outcome : Outcome) :
    (t.conclude depth outcome).Ensures (· = outcome) := by
  unfold conclude
  cases outcome with
  | done output next => exact .bind fun _ => .bind fun _ => .pure rfl
  | failed reason => exact .bind fun _ => .bind fun _ => .pure rfl

theorem announce_ensures {body : Run Outcome} (depth : Nat) (h : body.Ensures t.Names) :
    (t.announce depth body).Ensures t.Names := by
  unfold announce
  refine .bind fun _ => .bind_of (settle_ensures h) fun o ho => ?_
  exact (t.conclude_ensures depth o).imp fun _ heq => heq ▸ ho

theorem run_eq (env : Surroundings) (workers : Value) (depth : Nat) (t : Task) :
    run env workers depth t =
      t.guarded depth (t.execute env workers (some (runAll env workers (depth + 1) t.nested))) := by
  cases t
  rw [run]
  rfl

/-- **Only a branching task names a task to go on with**, whatever is nested in the others, and it
names one of its targets. -/
theorem run_ensures (env : Surroundings) (workers : Value) (depth : Nat) (t : Task) :
    (run env workers depth t).Ensures t.Names := by
  rw [run_eq]
  unfold guarded
  refine .bind fun s => ?_
  split
  · unfold skip
    exact .bind fun _ => .bind fun _ => .pure (Plain.names rfl)
  · exact announce_ensures depth (t.execute_ensures env workers _)
  · split
    · exact announce_ensures depth (.pure (Plain.names rfl))
    · exact .fail

end Task

/-! ### Ids of accepted plans -/

theorem nodup_of_duplicateIds {tasks : List Task} (h : (duplicateIds tasks).isEmpty = true) :
    (tasks.map (·.id)).Nodup := by
  rw [List.nodup_iff_count_le_one]
  intro id
  by_contra hcount
  have hmem : id ∈ tasks.map (·.id) := List.count_pos_iff.1 (by omega)
  have hduplicate : id ∈ duplicateIds tasks := by
    rw [duplicateIds, sortedTexts, List.mem_eraseDups, List.mem_mergeSort, List.mem_filter]
    exact ⟨hmem, by simpa using hcount⟩
  rw [List.isEmpty_iff.1 h] at hduplicate
  cases hduplicate

/-- **Accepting a plan**: its tasks have been read, and no two of them share an id. -/
theorem Plan.exists_of_ofValue {source : Value} {plan : Plan} (h : Plan.ofValue source = .ok plan) :
    ∃ items, topTasks 0 items = .ok plan.tasks ∧ (duplicateIds plan.tasks).isEmpty = true := by
  unfold Plan.ofValue at h
  obtain ⟨entries, -, h⟩ := exists_of_bind_ok h
  cases htasks : (entries.field "tasks").orElse (.list []) with
  | list items =>
    rw [htasks] at h
    obtain ⟨tasks, hread, h⟩ := exists_of_bind_ok h
    dsimp only at h
    split at h
    · cases h
    rename_i hduplicates
    obtain ⟨policy, -, h⟩ := exists_of_bind_ok h
    cases hvars : (entries.field "vars").orElse (.dict []) with
    | dict vars =>
      rw [hvars] at h
      obtain ⟨_, -, h⟩ := exists_of_bind_ok h
      obtain ⟨connections, -, h⟩ := exists_of_bind_ok h
      cases h
      exact ⟨items, hread, by simpa using hduplicates⟩
    | _ =>
      rw [hvars] at h
      cases h
  | _ =>
    rw [htasks] at h
    cases h

/-- **An accepted plan names no id twice** at its top level. -/
theorem Plan.nodup_ids {source : Value} {plan : Plan} (h : Plan.ofValue source = .ok plan) :
    (plan.tasks.map (·.id)).Nodup := by
  obtain ⟨items, -, hduplicates⟩ := exists_of_ofValue h
  exact nodup_of_duplicateIds hduplicates

/-! ### Turns -/

/-- A turn of a run: the task at a place, and the world that it begins in. -/
structure Turn where
  place : Nat
  task : Task
  before : World

namespace Plan

/-- The turns of a run from a place on, at most so many. -/
def turns (plan : Plan) (env : Surroundings) : (fuel : Nat) → (place : Nat) → World → List Turn
  | fuel, i, w =>
    match plan.tasks[i]?, fuel with
    | none, _ => []
    | some _, 0 => []
    | some t, fuel + 1 =>
      ⟨i, t, w⟩ ::
        match plan.step env i t w with
        | (.ok j, w) => turns plan env fuel j w
        | (.error _, _) => []

/-- **The course of a run**: its turns, at most so many. A plan whose header is not shown and one
whose tasks are faulty have none. -/
def course (plan : Plan) (env : Surroundings) (fuel : Nat) (w : World) : List Turn :=
  match Run.tellHeader plan w, Task.checkAll plan.tasks with
  | (.ok (), w), .ok () => plan.turns env fuel 0 w
  | _, _ => []

/-- What the task of a turn comes to, and the world behind it. -/
def comesTo (plan : Plan) (env : Surroundings) (v : Turn) : Except Error Outcome × World :=
  v.task.run env plan.maxWorkers 0 v.before

/-- The task of a turn fails. -/
def Fails (plan : Plan) (env : Surroundings) (v : Turn) : Prop :=
  ∃ reason, (plan.comesTo env v).1 = .ok (.failed reason)

/-- The task that a turn names to go on with: the target that a branching task has given, unless it
is empty. -/
def targetOf (plan : Plan) (env : Surroundings) (v : Turn) : Option String :=
  match TaskKind.ofName v.task.type, (plan.comesTo env v).1 with
  | .ok .branch, .ok (.done _ (some id)) => if id = "" then none else some id
  | _, _ => none

/-- The one task with an id stands at a place. -/
def IsPlaceOf (plan : Plan) (id : String) (j : Nat) : Prop :=
  ∀ k, (∃ t, plan.tasks[k]? = some t ∧ t.id = id) ↔ k = j

/-- Where the flow graph leads behind a turn. -/
def Leads (plan : Plan) (env : Surroundings) (v : Turn) (j : Nat) : Prop :=
  match plan.targetOf env v with
  | some id => plan.IsPlaceOf id j
  | none => j = v.place + 1

/-- Every target of a branching task, unless it is empty, is the id of a later task. -/
def TargetsAhead (plan : Plan) : Prop :=
  ∀ (i : Nat) (t : Task), plan.tasks[i]? = some t → TaskKind.ofName t.type = .ok .branch →
    ∀ satisfied id, t.branchTarget satisfied = .ok (some id) → id ≠ "" →
      ∃ (j : Nat) (u : Task), i < j ∧ plan.tasks[j]? = some u ∧ u.id = id

variable {plan : Plan} {env : Surroundings} {fuel i j : Nat} {w w' : World} {v : Turn}

/-! ### One turn -/

theorem isPlaceOf_of_place? (hids : (plan.tasks.map (·.id)).Nodup) {id : String}
    (h : plan.place? id = some j) : plan.IsPlaceOf id j := by
  obtain ⟨hj, hid, -⟩ := List.findIdx?_eq_some_iff_getElem.1 h
  have hid : plan.tasks[j].id = id := by simpa using hid
  intro k
  constructor
  · rintro ⟨t, ht, htid⟩
    have hk : (plan.tasks.map (·.id))[k]? = (plan.tasks.map (·.id))[j]? := by
      rw [List.getElem?_map, List.getElem?_map, ht, List.getElem?_eq_getElem hj]
      simp [htid, hid]
    have hlt : k < (plan.tasks.map (·.id)).length := by
      rw [List.length_map]
      exact (List.getElem?_eq_some_iff.1 ht).1
    exact (List.getElem?_inj hlt hids).1 hk
  · rintro rfl
    exact ⟨plan.tasks[k], List.getElem?_eq_getElem hj, hid⟩

/-- A step that leads somewhere: the task has come to an outcome that the run goes on behind. -/
theorem step_ok (h : plan.step env v.place v.task v.before = (.ok j, w')) :
    ∃ o, plan.comesTo env v = (.ok o, w') ∧ stopError? v.task o = .ok none ∧
      plan.placeAfter v.place o = .ok j := by
  unfold step at h
  obtain ⟨o, u, hrun, h⟩ := Run.exists_of_bind_ok h
  obtain ⟨stop, u', hstop, h⟩ := Run.exists_of_bind_ok h
  rw [Run.lift_run, Prod.mk.injEq] at hstop
  obtain ⟨hstop, rfl⟩ := hstop
  cases stop with
  | some e => cases h
  | none =>
    simp only [Run.lift_run] at h
    obtain ⟨hplace, rfl⟩ := Prod.mk.inj h
    exact ⟨o, hrun, hstop, hplace⟩

theorem nextOf_eq_some {o : Outcome} {id : String} (h : nextOf o = some id) :
    o.next? = some id ∧ id ≠ "" := by
  cases o with
  | failed reason => cases h
  | done output next =>
    cases next with
    | none => cases h
    | some target =>
      by_cases htarget : target = ""
      · subst htarget
        cases h
      · have hnext : nextOf (.done output (some target)) = some target := by simp [nextOf, htarget]
        obtain rfl := Option.some.inj (hnext.symm.trans h)
        exact ⟨rfl, htarget⟩

/-- The target of a turn is the one that its outcome names. -/
theorem targetOf_eq {o : Outcome} (h : plan.comesTo env v = (.ok o, w')) :
    plan.targetOf env v = nextOf o := by
  have hnames : v.task.Names o := Task.run_ensures env plan.maxWorkers 0 v.task _ _ _ h
  unfold targetOf
  rw [h]
  cases o with
  | failed reason =>
    split
    · rename_i heq
      cases heq
    · rfl
  | done output next =>
    cases next with
    | none =>
      split
      · rename_i heq
        cases heq
      · rfl
    | some id =>
      rw [(hnames id rfl).1]
      by_cases hid : id = ""
      · subst hid
        rfl
      · simp [nextOf, hid]

/-- **Where a step leads**: to the one task that a branching task has named, or to the next
place. -/
theorem step_leads (hids : (plan.tasks.map (·.id)).Nodup)
    (h : plan.step env v.place v.task v.before = (.ok j, w')) :
    plan.Leads env v j ∧ w' = (plan.comesTo env v).2 := by
  obtain ⟨o, hrun, -, hplace⟩ := step_ok h
  refine ⟨?_, by rw [hrun]⟩
  unfold Leads
  unfold placeAfter at hplace
  rw [targetOf_eq hrun]
  cases hnext : nextOf o with
  | none =>
    rw [hnext] at hplace
    exact (Except.ok.inj hplace).symm
  | some id =>
    rw [hnext] at hplace
    cases hat : plan.place? id with
    | none =>
      simp only [hat] at hplace
      cases hplace
    | some k =>
      simp only [hat] at hplace
      cases hplace
      exact isPlaceOf_of_place? hids hat

/-- A run does not go on behind a failed task that asks to stop. -/
theorem step_ne_ok (hfails : plan.Fails env v) (hstop : v.task.onError = .stop) :
    plan.step env v.place v.task v.before ≠ (.ok j, w') := by
  intro h
  obtain ⟨o, hrun, hnone, -⟩ := step_ok h
  obtain ⟨reason, hreason⟩ := hfails
  rw [hrun] at hreason
  obtain rfl : o = .failed reason := Except.ok.inj hreason
  unfold stopError? at hnone
  rw [hstop] at hnone
  cases hname : v.task.displayName.text with
  | error e =>
    rw [hname] at hnone
    cases hnone
  | ok name =>
    rw [hname] at hnone
    cases hnone

/-- A target that lies ahead leads on. -/
theorem lt_of_leads (hahead : plan.TargetsAhead) (htask : plan.tasks[v.place]? = some v.task)
    (hok : ∃ o, plan.comesTo env v = (.ok o, w')) (hleads : plan.Leads env v j) : v.place < j := by
  obtain ⟨o, hrun⟩ := hok
  have hnames : v.task.Names o := Task.run_ensures env plan.maxWorkers 0 v.task _ _ _ hrun
  unfold Leads at hleads
  rw [targetOf_eq hrun] at hleads
  cases hnext : nextOf o with
  | none =>
    rw [hnext] at hleads
    simp only at hleads
    omega
  | some id =>
    rw [hnext] at hleads
    obtain ⟨hid, hne⟩ := nextOf_eq_some hnext
    obtain ⟨hkind, satisfied, htarget⟩ := hnames id hid
    obtain ⟨k, u, hlt, hu, huid⟩ := hahead _ _ htask hkind satisfied id htarget hne
    obtain rfl : k = j := (hleads k).1 ⟨u, hu, huid⟩
    exact hlt

/-- A step ends in the world that its task leaves behind. -/
theorem step_world (plan : Plan) (env : Surroundings) (i : Nat) (t : Task) (w : World) :
    (plan.step env i t w).2 = (t.run env plan.maxWorkers 0 w).2 := by
  rcases hrun : t.run env plan.maxWorkers 0 w with ⟨e | o, v⟩
  · rw [step, Run.bind_error hrun]
  · rw [step, Run.bind_ok hrun]
    cases hstop : stopError? t o with
    | error e => rw [Run.bind_error (Run.lift_run (.error e) v)]
    | ok stop =>
      rw [Run.bind_lift rfl]
      cases stop <;> rfl

/-! ### A whole run -/

/-- The turns of a run from a place on together with what the run comes to: it is past the last
task, or out of turns, or a turn has ended it, or a turn leads on. -/
inductive Walk (plan : Plan) (env : Surroundings) :
    (fuel place : Nat) → World → List Turn → Except Error Bool × World → Prop
  | past {fuel i : Nat} {w : World} (h : plan.tasks[i]? = none) :
      Walk plan env fuel i w [] (.ok true, w)
  | tired {i : Nat} {w : World} {t : Task} (h : plan.tasks[i]? = some t) :
      Walk plan env 0 i w [] (.ok false, w)
  | ended {fuel i : Nat} {w w' : World} {t : Task} {e : Error} (h : plan.tasks[i]? = some t)
      (hstep : plan.step env i t w = (.error e, w')) :
      Walk plan env (fuel + 1) i w [⟨i, t, w⟩] (.error e, w')
  | onward {fuel i j : Nat} {w w' : World} {t : Task} {vs : List Turn}
      {r : Except Error Bool × World} (h : plan.tasks[i]? = some t)
      (hstep : plan.step env i t w = (.ok j, w')) (hrest : Walk plan env fuel j w' vs r) :
      Walk plan env (fuel + 1) i w (⟨i, t, w⟩ :: vs) r

theorem walk (plan : Plan) (env : Surroundings) (fuel i : Nat) (w : World) :
    plan.Walk env fuel i w (plan.turns env fuel i w) (plan.flow env fuel i w) := by
  induction fuel generalizing i w with
  | zero =>
    cases htask : plan.tasks[i]? with
    | none =>
      rw [turns.eq_1 _ _ _ _ _ htask, flow.eq_1 _ _ _ _ htask]
      exact .past htask
    | some t =>
      rw [turns.eq_2 _ _ _ _ _ htask, flow.eq_2 _ _ _ _ htask]
      exact .tired htask
  | succ fuel ih =>
    cases htask : plan.tasks[i]? with
    | none =>
      rw [turns.eq_1 _ _ _ _ _ htask, flow.eq_1 _ _ _ _ htask]
      exact .past htask
    | some t =>
      rw [turns.eq_3 _ _ _ _ _ _ htask, flow.eq_3 _ _ _ _ _ htask]
      rcases hstep : plan.step env i t w with ⟨e | j, w'⟩
      · have hflow : (plan.step env i t).bind (fun j => plan.flow env fuel j) w = (.error e, w') :=
          Run.bind_error hstep
        rw [hflow]
        exact .ended htask hstep
      · have hflow : (plan.step env i t).bind (fun j => plan.flow env fuel j) w =
            plan.flow env fuel j w' := Run.bind_ok hstep
        rw [hflow]
        exact .onward htask hstep (ih j w')

namespace Walk

variable {vs : List Turn} {r : Except Error Bool × World}

theorem head (h : plan.Walk env fuel i w vs r) : ∀ v ∈ vs.head?, v.place = i ∧ v.before = w := by
  cases h with
  | past _ => simp
  | tired _ => simp
  | ended _ _ => simp
  | onward _ _ _ => simp

theorem ne_nil (h : plan.Walk env (fuel + 1) i w vs r) (hi : i < plan.tasks.length) : vs ≠ [] := by
  cases h with
  | past hnone => exact absurd hi (by simpa using hnone)
  | ended _ _ => simp
  | onward _ _ _ => simp

/-- The task of a turn is the one at its place. -/
theorem task_eq (h : plan.Walk env fuel i w vs r) :
    ∀ v ∈ vs, plan.tasks[v.place]? = some v.task := by
  induction h with
  | past _ => simp
  | tired _ => simp
  | ended htask _ => simpa using htask
  | onward htask _ _ ih =>
    intro v hv
    rcases List.mem_cons.1 hv with rfl | hv
    · exact htask
    · exact ih v hv

/-- Following a plan ends in the world behind the last turn. -/
theorem left (h : plan.Walk env fuel i w vs r) :
    r.2 = match vs.getLast? with
      | none => w
      | some v => (plan.comesTo env v).2 := by
  induction h with
  | past _ => rfl
  | tired _ => rfl
  | @ended fuel i w w' t e _ hstep =>
    have hworld := plan.step_world env i t w
    rw [hstep] at hworld
    exact hworld
  | @onward fuel i j w w' t vs r _ hstep _ ih =>
    rw [ih]
    cases vs with
    | nil =>
      have hworld := plan.step_world env i t w
      rw [hstep] at hworld
      exact hworld
    | cons v vs =>
      rw [List.getLast?_cons_cons, List.getLast?_eq_some_getLast (List.cons_ne_nil v vs)]

/-- **A failed task that asks to stop is the last one**, and the run ends in an error. -/
theorem stops (h : plan.Walk env fuel i w vs r) :
    ∀ v ∈ vs, plan.Fails env v → v.task.onError = .stop →
      vs.getLast? = some v ∧ ∃ e, r.1 = .error e := by
  induction h with
  | past _ => simp
  | tired _ => simp
  | ended _ _ =>
    intro v hv _ _
    rw [List.mem_singleton.1 hv]
    exact ⟨rfl, _, rfl⟩
  | @onward fuel i j w w' t vs r htask hstep hrest ih =>
    intro v hv hfails hstop
    rcases List.mem_cons.1 hv with rfl | hv
    · -- a step behind which the run goes on is none that stops it
      exact absurd hstep (step_ne_ok hfails hstop)
    · obtain ⟨hlast, herror⟩ := ih v hv hfails hstop
      refine ⟨?_, herror⟩
      obtain ⟨front, rfl⟩ := List.getLast?_eq_some_iff.1 hlast
      rw [← List.cons_append, List.getLast?_concat]

/-- **Where all targets lie ahead**, places only grow, and as many turns as there are tasks are
enough. -/
theorem ahead (hids : (plan.tasks.map (·.id)).Nodup) (hahead : plan.TargetsAhead)
    (h : plan.Walk env fuel i w vs r) :
    vs.IsChain (fun v next => v.place < next.place) ∧
      (plan.tasks.length ≤ i + fuel → r.1 ≠ .ok false) := by
  induction h with
  | past _ => exact ⟨.nil, fun _ h => by cases h⟩
  | @tired i w t htask =>
    refine ⟨.nil, fun hlen => ?_⟩
    have hi := (List.getElem?_eq_some_iff.1 htask).1
    omega
  | ended _ _ => exact ⟨.singleton _, fun _ h => by cases h⟩
  | @onward fuel i j w w' t vs r htask hstep hrest ih =>
    obtain ⟨o, hrun, -, -⟩ := step_ok (v := ⟨i, t, w⟩) hstep
    have hleads := (step_leads (v := ⟨i, t, w⟩) hids hstep).1
    have hlt : i < j := lt_of_leads (v := ⟨i, t, w⟩) hahead htask ⟨o, hrun⟩ hleads
    refine ⟨List.isChain_cons.2 ⟨fun next hnext => ?_, ih.1⟩, fun hlen => ih.2 (by omega)⟩
    rw [(hrest.head next hnext).1]
    exact hlt

end Walk

/-! ### Reports -/

/-- The report on a world. -/
def reportOn (error : Option String) (w : World) : Report :=
  ⟨w.completed, w.failed, w.skipped, error, w.store.snapshot⟩

/-- The world that a run closes with: the summary is told, and the variables are cleared if the
plan asks for it. -/
def closed (plan : Plan) (w : World) : World :=
  { w.told (.summary w.completed w.failed w.skipped Task.noTime) with
    store := if plan.clearOnFinish.isTruthy then w.store.clear else w.store }

theorem errorNotice_shown (e : Error) : ∃ lines, (errorNotice e).lines = .ok lines := by
  unfold errorNotice
  split
  · exact ⟨_, rfl⟩
  · exact ⟨_, rfl⟩

/-- **The end of every run**: the report is taken before the variables are cleared. -/
theorem conclude_eq (plan : Plan) (error : Option String) (w : World) :
    plan.conclude error w = (.ok (reportOn error w), plan.closed w) := by
  obtain ⟨_, hlines⟩ := Notice.summary_shown w.completed w.failed w.skipped
  show ((Run.tell (.summary w.completed w.failed w.skipped Task.noTime) >>= _ : Run Report) w) = _
  rw [Run.bind_ok (Run.tell_ok hlines w), closed]
  cases plan.clearOnFinish.isTruthy with
  | true => rfl
  | false => rfl

/-- **What a run comes to** whose header is shown, by how its tasks end: past the last place, with
an error, or not yet. -/
theorem run_eq (hshown : w.console.showHeader plan = .ok ()) (env : Surroundings) (fuel : Nat) :
    plan.run env fuel w =
      match plan.perform env fuel (w.told (.header plan)) with
      | (.ok true, v) => (.ok (some (reportOn none v)), plan.closed v)
      | (.ok false, v) => (.ok none, v)
      | (.error e, v) => (.ok (some (reportOn (some (errorText e)) (v.told (errorNotice e)))),
          plan.closed (v.told (errorNotice e))) := by
  rw [run, Run.bind_ok (Run.tellHeader_ok hshown), Run.bind_ok (Run.attempt_run _ _)]
  rcases plan.perform env fuel (w.told (.header plan)) with ⟨e | ended, v⟩
  · obtain ⟨_, hnotice⟩ := errorNotice_shown e
    dsimp only
    rw [Run.bind_ok (Run.tell_ok hnotice v), Run.bind_ok (plan.conclude_eq _ _)]
    rfl
  · cases ended with
    | true =>
      dsimp only
      rw [Run.bind_ok (plan.conclude_eq none v)]
      rfl
    | false => rfl

/-- **A run whose header is refused** comes to that error, and changes nothing. -/
theorem run_refused_header {e : Error} (h : w.console.showHeader plan = .error e)
    (env : Surroundings) (fuel : Nat) : plan.run env fuel w = (.error e, w) := by
  rw [run, Run.bind_error (Run.tellHeader_error h)]

/-! ### The world that the tasks leave -/

/-- The world that the tasks of a run leave: the one behind its last turn. -/
def left (plan : Plan) (env : Surroundings) (fuel : Nat) (w : World) : World :=
  match (plan.course env fuel w).getLast? with
  | none => w.told (.header plan)
  | some v => (plan.comesTo env v).2

/-- A plan with faulty tasks does nothing. -/
theorem perform_of_fault {e : Error} (h : Task.checkAll plan.tasks = .error e)
    (env : Surroundings) (fuel : Nat) (w : World) :
    plan.perform env fuel w = (.error e, w) := by
  rw [perform, h, Run.bind_error (Run.lift_run (.error e) w)]

theorem perform_of_checked (h : Task.checkAll plan.tasks = .ok ()) (env : Surroundings)
    (fuel : Nat) (w : World) : plan.perform env fuel w = plan.flow env fuel 0 w := by
  rw [perform, h, Run.bind_lift rfl]

theorem course_of_fault {e : Error} (h : Task.checkAll plan.tasks = .error e)
    (env : Surroundings) (fuel : Nat) (w : World) : plan.course env fuel w = [] := by
  unfold course
  split
  · rename_i hok
    rw [h] at hok
    cases hok
  · rfl

/-- **What following a checked plan comes to**, with its turns. -/
theorem walk_of_checked (hshown : w.console.showHeader plan = .ok ())
    (hchecked : Task.checkAll plan.tasks = .ok ()) (env : Surroundings) (fuel : Nat) :
    plan.Walk env fuel 0 (w.told (.header plan)) (plan.course env fuel w)
      (plan.perform env fuel (w.told (.header plan))) := by
  rw [perform_of_checked hchecked, course, Run.tellHeader_ok hshown, hchecked]
  exact plan.walk env fuel 0 _

/-- A run with a report has shown its header. -/
theorem shown_of_run {r : Option Report} (h : plan.run env fuel w = (.ok r, w')) :
    w.console.showHeader plan = .ok () := by
  cases hshown : w.console.showHeader plan with
  | ok _ => rfl
  | error e =>
    rw [run_refused_header hshown] at h
    cases h

end Plan

end Runbook
