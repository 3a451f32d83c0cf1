import Runbook.Proofs.Endings
import Runbook.Proofs.Silence

/-!
# Accounting for tasks

That a task begins is told. What it comes to is told and counted, and so is that a task is skipped.
A run keeps this account as long as no task that has begun is lost: an error other than those of
expressions and variables leaves it without a word. A group takes such an error of a task that it
runs for a failure of its own, and so the run may go on with a task missing in the account.

* `Paired`: a log in which every start has its result.
* `World.Tells`: what a computation tells is what it counts.
* `Execution.Within`, `Execution.Lost`: the executions of nested tasks, and which are lost.
* `Execution.Kept`: relations that running tasks keeps, by one induction on the tree of tasks.
* `kept_tells`, `run_tells`: what running tasks and a whole run tell.
* `accountsFor_iff`: **when a run accounts for every task.**
-/

namespace Runbook

open Runbook.Display

namespace Display.Notice

/-- Whether a notice tells that a task begins. -/
def isStart : Notice → Bool
  | .start .. => true
  | _ => false

/-- Whether a notice tells how a task ended. -/
def isResult : Notice → Bool
  | .result .. => true
  | _ => false

/-- Whether a notice tells that a task is skipped. -/
def isSkip : Notice → Bool
  | .skipped .. => true
  | _ => false

end Display.Notice

/-! ### Starts and results -/

/-- **Every start has its result**: each start is followed by one result of its task, and no result
is left over. -/
inductive Paired : List Notice → Prop
  | nil : Paired []
  | aside {n : Notice} {log : List Notice} (hstart : n.isStart = false)
    (hresult : n.isResult = false) (hrest : Paired log) : Paired (n :: log)
  | pair {t : Task} {depth : Int} {success : Bool} {duration : Value} {output error : Option String}
    {between behind : List Notice} (hrest : Paired (between ++ behind)) :
    Paired (.start t depth ::
      (between ++ .result t success duration output error depth :: behind))

namespace Paired

variable {log more : List Notice}

theorem append (h : Paired log) (hmore : Paired more) : Paired (log ++ more) := by
  induction h with
  | nil => exact hmore
  | aside hstart hresult _ ih => exact .aside hstart hresult ih
  | pair _ ih =>
    rw [List.cons_append, List.append_assoc, List.cons_append]
    exact .pair (by rwa [List.append_assoc] at ih)

theorem countP_eq (h : Paired log) : log.countP Notice.isStart = log.countP Notice.isResult := by
  induction h with
  | nil => rfl
  | aside hstart hresult _ ih => rw [List.countP_cons, List.countP_cons, hstart, hresult, ih]
  | pair _ ih =>
    simp only [List.countP_cons, List.countP_append, Notice.isStart, Notice.isResult] at ih ⊢
    simp only [if_true, Bool.false_eq_true, if_false]
    omega

/-- A task that runs others is told around them. -/
theorem around (h : Paired log) (t : Task) (depth : Int) (success : Bool) (duration : Value)
    (output error : Option String) :
    Paired (.start t depth :: (log ++ [.result t success duration output error depth])) :=
  .pair (by rwa [List.append_nil])

end Paired

/-- **How a log stands**: every start has its result and no task is lost, or a task is lost and
there are fewer results than starts. -/
def Stands (lost : Prop) (log : List Notice) : Prop :=
  (Paired log ∧ ¬ lost) ∨ (log.countP Notice.isResult < log.countP Notice.isStart ∧ lost)

namespace Stands

variable {lost other : Prop} {log more : List Notice}

theorem congr (h : Stands lost log) (heq : lost ↔ other) : Stands other log := by
  rwa [Stands, ← heq]

theorem le (h : Stands lost log) : log.countP Notice.isResult ≤ log.countP Notice.isStart := by
  rcases h with ⟨hpaired, -⟩ | ⟨hlt, -⟩
  · exact le_of_eq hpaired.countP_eq.symm
  · exact hlt.le

theorem append (h : Stands lost log) (hmore : Stands other more) :
    Stands (lost ∨ other) (log ++ more) := by
  have hle := h.le
  have hmorele := hmore.le
  rw [Stands, List.countP_append, List.countP_append]
  rcases h with ⟨hpaired, hnot⟩ | ⟨hlt, hlost⟩
  · rcases hmore with ⟨hmorepaired, hmorenot⟩ | ⟨hlt, hlost⟩
    · exact .inl ⟨hpaired.append hmorepaired, not_or.2 ⟨hnot, hmorenot⟩⟩
    · exact .inr ⟨by omega, .inr hlost⟩
  · exact .inr ⟨by omega, .inl hlost⟩

theorem nil (h : ¬ lost) : Stands lost [] := .inl ⟨.nil, h⟩

end Stands

/-! ### Telling and counting -/

/-- **What is told is what is counted**: one world comes from another by telling a log, the results
in it are the tasks counted as completed or failed, and the skips those counted as skipped. -/
structure World.Tells (w : World) (log : List Notice) (v : World) : Prop where
  notices : v.notices = w.notices ++ log
  ended : v.completed + v.failed = w.completed + w.failed + log.countP Notice.isResult
  skipped : v.skipped = w.skipped + log.countP Notice.isSkip

namespace World

variable {u v w : World} {log more : List Notice}

theorem Tells.trans (h : u.Tells log v) (h' : v.Tells more w) : u.Tells (log ++ more) w := by
  refine ⟨by rw [h'.notices, h.notices, List.append_assoc], ?_, ?_⟩
  · rw [h'.ended, h.ended, List.countP_append, Nat.add_assoc]
  · rw [h'.skipped, h.skipped, List.countP_append, Nat.add_assoc]

theorem SameTold.tells (h : w.SameTold v) : w.Tells [] v :=
  ⟨by rw [h.notices, List.append_nil], by rw [h.completed, h.failed]; rfl, by rw [h.skipped]; rfl⟩

theorem tells_told {n : Notice} (hresult : n.isResult = false) (hskip : n.isSkip = false)
    (w : World) : w.Tells [n] (w.told n) :=
  ⟨rfl, by simp [told, hresult], by simp [told, hskip]⟩

end World

namespace Task

variable {t : Task} {depth : Nat} {v w : World} {o : Outcome} {reason : String}

/-- A task whose name cannot be shown is neither told to begin nor to be skipped. -/
theorem untold (h : ¬ t.IsShown) (depth : Nat) (reason : String) :
    ∃ e, (Notice.start t depth).lines = .error e ∧
      (Notice.skipped t reason depth).lines = .error e := by
  have hnone : t.displayName.asText? = none := by
    cases hname : t.displayName.asText? with
    | none => rfl
    | some name => exact absurd ⟨name, hname⟩ h
  refine ⟨.kind (.notText t.displayName.typeName), ?_, ?_⟩ <;>
    simp [Notice.lines, Notice.taskLine, Notice.escaped, hnone, Except.map]

/-- The end of a task is told and counted. -/
theorem conclude_tells (hshown : t.IsShown) (depth : Nat) (o : Outcome) (w : World) :
    ∃ v, t.conclude depth o w = (.ok o, v) ∧
      ∃ success output error, w.Tells [.result t success noTime output error depth] v := by
  cases o with
  | done output next =>
    obtain ⟨lines, hlines⟩ := result_shown hshown true (some output) none depth
    refine ⟨_, Run.bind_ok (Run.tell_ok hlines w), _, _, _, rfl, ?_, rfl⟩
    simp [World.told, Notice.isResult]
    omega
  | failed reason =>
    obtain ⟨lines, hlines⟩ := result_shown hshown false none (some reason) depth
    refine ⟨_, Run.bind_ok (Run.tell_ok hlines w), _, _, _, rfl, ?_, rfl⟩
    simp [World.told, Notice.isResult]
    omega

/-- A skip is told and counted. -/
theorem skip_tells (hshown : t.IsShown) (depth : Nat) (reason : String) (w : World) :
    w.Tells [.skipped t reason depth] (t.skip depth reason w).2 := by
  obtain ⟨lines, hlines⟩ := skipped_shown hshown reason depth
  rw [skip, Run.bind_ok (Run.tell_ok hlines w)]
  exact ⟨rfl, rfl, rfl⟩

/-- An error other than those of expressions and variables. -/
def Raises (body : Run Outcome) (w : World) : Prop :=
  ∃ e v, body w = (.error e, v) ∧ e.isStoreError = false

/-- What a settled computation comes to is an outcome, unless such an error leaves it. -/
theorem settle_cases (body : Run Outcome) (w : World) :
    (¬ Raises body w ∧ ∃ o, settle body w = (.ok o, (body w).2)) ∨
      (Raises body w ∧ ∃ e, settle body w = (.error e, (body w).2)) := by
  rcases hbody : body w with ⟨e | o, v⟩
  · cases he : e.isStoreError with
    | true =>
      refine .inl ⟨?_, _, settle_error hbody he⟩
      rintro ⟨f, u, hf, hnot⟩
      rw [hbody] at hf
      cases hf
      rw [he] at hnot
      cases hnot
    | false => exact .inr ⟨⟨e, v, hbody, he⟩, _, settle_escape hbody he⟩
  · refine .inl ⟨?_, _, settle_ok hbody⟩
    rintro ⟨f, u, hf, -⟩
    rw [hbody] at hf
    cases hf

/-- **An announced task**: its start, what it tells while it is doing, and its result, unless an
error leaves it. -/
theorem announce_tells (hshown : t.IsShown) {body : Run Outcome} {inner : List Notice} {lost : Prop}
    (htells : (w.told (.start t depth)).Tells inner (body (w.told (.start t depth))).2)
    (hstands : Stands lost inner) :
    ∃ log, w.Tells log (t.announce depth body w).2 ∧
      Stands (Raises body (w.told (.start t depth)) ∨ lost) log := by
  obtain ⟨lines, hstart⟩ := start_shown hshown depth
  have hbegun : w.Tells [.start t depth] (w.told (.start t depth)) := World.tells_told rfl rfl w
  have hle := hstands.le
  rcases settle_cases body (w.told (.start t depth)) with
    ⟨hcalm, o, hsettle⟩ | ⟨hraises, e, hsettle⟩
  · obtain ⟨v, hconclude, success, output, error, hresult⟩ :=
      conclude_tells hshown depth o (body (w.told (.start t depth))).2
    have htold : w.Tells
        (.start t depth :: (inner ++ [.result t success noTime output error depth]))
        (t.announce depth body w).2 := by
      rw [announce, Run.bind_ok (Run.tell_ok hstart w), Run.bind_ok hsettle, hconclude]
      exact hbegun.trans (htells.trans hresult)
    refine ⟨_, htold, ?_⟩
    -- a start and its result around the log leave it as it stands
    rcases hstands with ⟨hpaired, hnot⟩ | ⟨hlt, hlost⟩
    · exact .inl ⟨hpaired.around t depth success noTime output error, not_or.2 ⟨hcalm, hnot⟩⟩
    · refine .inr ⟨?_, .inr hlost⟩
      simp [Notice.isStart, Notice.isResult, List.countP_cons]
      omega
  · -- the start stays without a result
    have htold : w.Tells (.start t depth :: inner) (t.announce depth body w).2 := by
      rw [announce_error hshown hsettle]
      exact hbegun.trans htells
    refine ⟨_, htold, .inr ⟨?_, .inl hraises⟩⟩
    simp [Notice.isStart, Notice.isResult, List.countP_cons]
    omega

/-- **A task whose name cannot be shown** raises an error and changes nothing, whatever it would
do. -/
theorem run_untold (h : ¬ t.IsShown) (env : Surroundings) (workers : Value) (depth : Nat)
    (w : World) : ∃ e, t.run env workers depth w = (.error e, w) := by
  have hannounce : ∀ body, ∃ e, t.announce depth body w = (.error e, w) := by
    intro body
    obtain ⟨e, hlines, -⟩ := untold h depth ""
    have htell : Run.tell (.start t depth) w = (.error e, w) := by rw [Run.tell, hlines]
    exact ⟨e, by rw [announce, Run.bind_error htell]⟩
  cases hguard : t.skipReason w.store with
  | error e =>
    rw [run_of_guard hguard]
    split
    · exact hannounce _
    · exact ⟨e, rfl⟩
  | ok skipped =>
    cases skipped with
    | some reason =>
      obtain ⟨e, -, hlines⟩ := untold h depth reason
      have htell : Run.tell (.skipped t reason depth) w = (.error e, w) := by rw [Run.tell, hlines]
      rw [run_eq, guarded, Run.bind_ok (Run.store_run w), hguard]
      exact ⟨e, Run.bind_error htell⟩
    | none =>
      rw [run_unskipped hguard]
      exact hannounce _

end Task

/-! ### Executions -/

/-- An execution of a task at a depth, in the world that it comes in. -/
structure Execution where
  depth : Nat
  task : Task
  before : World

namespace Execution

/-- The task begins: its guard does not keep it from running, and its name can be shown. -/
structure Begins (x : Execution) : Prop where
  unskipped : x.task.skipReason x.before.store = .ok none
  shown : x.task.IsShown

/-- The world in which the task has been told to begin. -/
def begun (x : Execution) : World := x.before.told (.start x.task x.depth)

variable (env : Surroundings) (workers : Value)

/-- **A lost execution**: when its task has begun, an error other than those of expressions and
variables leaves it. -/
structure Lost (x : Execution) : Prop where
  begins : x.Begins
  raises : Task.Raises (x.task.doing env workers x.depth) x.begun

/-- The task begins to run the tasks nested in it. -/
structure RunsNested (x : Execution) : Prop where
  begins : x.Begins
  kind : TaskKind.ofName x.task.type = .ok .fanOut
  workers : checkWorkers workers = .ok ()

/-- **The executions within an execution**: itself, and those within the execution of a nested
task, which comes when those in front of it have been run. -/
inductive Within : Execution → Execution → Prop
  | self (x : Execution) : Within x x
  | nested {x y : Execution} {front behind : List Task} {t : Task} {results : List NestedResult}
    {v : World} (hx : x.RunsNested workers) (hsplit : x.task.nested = front ++ t :: behind)
    (hfront : Task.runAll env workers (x.depth + 1) front x.begun = (.ok results, v))
    (hy : Within ⟨x.depth + 1, t, v⟩ y) : Within x y

/-- An execution of a certain sort within an execution. -/
def Meets (sort : Execution → Prop) (x : Execution) : Prop :=
  ∃ y, Within env workers x y ∧ sort y

/-- An execution of a certain sort within those of tasks that are run one after another. -/
def MeetsAmong (sort : Execution → Prop) (depth : Nat) (ts : List Task) (w : World) : Prop :=
  ∃ front t behind results v, ts = front ++ t :: behind ∧
    Task.runAll env workers depth front w = (.ok results, v) ∧ Meets env workers sort ⟨depth, t, v⟩

/-- A lost execution within an execution. -/
def Loses (x : Execution) : Prop :=
  ∃ y, Within env workers x y ∧ y.Lost env workers

/-- A lost execution within those of tasks that are run one after another. -/
def LosesAmong (depth : Nat) (ts : List Task) (w : World) : Prop :=
  ∃ front t behind results v, ts = front ++ t :: behind ∧
    Task.runAll env workers depth front w = (.ok results, v) ∧ Loses env workers ⟨depth, t, v⟩

variable {env workers} {sort : Execution → Prop} {x : Execution} {depth : Nat} {t : Task}
  {ts : List Task} {w : World}

theorem meets_iff : x.Meets env workers sort ↔ sort x ∨
    (x.RunsNested workers ∧ MeetsAmong env workers sort (x.depth + 1) x.task.nested x.begun) := by
  constructor
  · rintro ⟨y, hwithin, hsort⟩
    cases hwithin with
    | self => exact .inl hsort
    | nested hx hsplit hfront hy => exact .inr ⟨hx, _, _, _, _, _, hsplit, hfront, y, hy, hsort⟩
  · rintro (hsort | ⟨hx, _, _, _, _, _, hsplit, hfront, y, hy, hsort⟩)
    · exact ⟨x, .self x, hsort⟩
    · exact ⟨y, .nested hx hsplit hfront hy, hsort⟩

/-- In the execution of a task that does not begin nothing is met behind it. -/
theorem meets_of_not_begins (hnot : ¬ x.Begins) : x.Meets env workers sort ↔ sort x := by
  rw [meets_iff]
  exact or_iff_left fun hruns => hnot hruns.1.begins

/-- In the execution of a task that begins, what the tasks nested in it meet, if it runs them. -/
theorem meets_of_begins (hbegins : x.Begins) : x.Meets env workers sort ↔ sort x ∨
    (TaskKind.ofName x.task.type = .ok .fanOut ∧ checkWorkers workers = .ok () ∧
      MeetsAmong env workers sort (x.depth + 1) x.task.nested x.begun) := by
  rw [meets_iff]
  refine or_congr_right ⟨?_, ?_⟩
  · rintro ⟨hruns, hmeets⟩
    exact ⟨hruns.kind, hruns.workers, hmeets⟩
  · rintro ⟨hkind, hworkers, hmeets⟩
    exact ⟨⟨hbegins, hkind, hworkers⟩, hmeets⟩

theorem not_meetsAmong_nil : ¬ MeetsAmong env workers sort depth [] w := by
  rintro ⟨front, t, behind, results, v, hsplit, -⟩
  cases front <;> cases hsplit

/-- What is run one after another is the first and then the rest, behind it. -/
theorem meetsAmong_cons : MeetsAmong env workers sort depth (t :: ts) w ↔
    Meets env workers sort ⟨depth, t, w⟩ ∨
      MeetsAmong env workers sort depth ts (t.run env workers depth w).2 := by
  constructor
  · rintro ⟨front, u, behind, results, v, hsplit, hfront, hmeets⟩
    cases front with
    | nil =>
      rw [Task.runAll] at hfront
      cases hfront
      cases hsplit
      exact .inl hmeets
    | cons t' front =>
      cases hsplit
      -- the rest is run behind the first, whatever becomes of that
      obtain ⟨rest, v', hrest⟩ :=
        Task.runAll_ok env workers depth front (t.run env workers depth w).2
      rw [Task.runAll_cons env workers depth t front w hrest] at hfront
      cases hfront
      exact .inr ⟨front, u, behind, rest, v, rfl, hrest, hmeets⟩
  · rintro (hmeets | ⟨front, u, behind, results, v, rfl, hfront, hmeets⟩)
    · exact ⟨[], t, ts, [], w, rfl, by rw [Task.runAll]; rfl, hmeets⟩
    · exact ⟨t :: front, u, behind, _, v, rfl,
        Task.runAll_cons env workers depth t front w hfront, hmeets⟩

theorem loses_iff : x.Loses env workers ↔ x.Lost env workers ∨
    (x.RunsNested workers ∧ LosesAmong env workers (x.depth + 1) x.task.nested x.begun) :=
  meets_iff

theorem not_losesAmong_nil : ¬ LosesAmong env workers depth [] w :=
  not_meetsAmong_nil

theorem losesAmong_cons : LosesAmong env workers depth (t :: ts) w ↔
    Loses env workers ⟨depth, t, w⟩ ∨
      LosesAmong env workers depth ts (t.run env workers depth w).2 :=
  meetsAmong_cons

/-- **A relation that running tasks keeps**: between the world before and the one behind, and
whether an execution of a certain sort was met on the way. It holds of nothing, of one thing behind
another, and of a task if it holds of the tasks nested in it. -/
structure Kept (env : Surroundings) (workers : Value) (sort : Execution → Prop)
    (rel : World → Prop → World → Prop) : Prop where
  nil : ∀ w, rel w False w
  append : ∀ {u v w : World} {p q : Prop}, rel u p v → rel v q w → rel u (p ∨ q) w
  task : ∀ (t : Task) (depth : Nat) (w : World),
    (∀ v, rel v (MeetsAmong env workers sort (depth + 1) t.nested v)
      (Task.runAll env workers (depth + 1) t.nested v).2) →
    rel w (Meets env workers sort ⟨depth, t, w⟩) (t.run env workers depth w).2

-- The induction is on the tree of tasks, and each world is the one the task before has left.
mutual

/-- Such a relation holds of every task that is run, -/
theorem Kept.run {rel : World → Prop → World → Prop} (h : Kept env workers sort rel) :
    ∀ (t : Task) (depth : Nat) (w : World),
      rel w (Meets env workers sort ⟨depth, t, w⟩) (t.run env workers depth w).2
  | .mk id type name scope guard onError settings nested, depth, w =>
    h.task (.mk id type name scope guard onError settings nested) depth w fun v =>
      h.runAll nested (depth + 1) v

/-- and of tasks that are run one after another. -/
theorem Kept.runAll {rel : World → Prop → World → Prop} (h : Kept env workers sort rel) :
    ∀ (ts : List Task) (depth : Nat) (w : World),
      rel w (MeetsAmong env workers sort depth ts w) (Task.runAll env workers depth ts w).2
  | [], depth, w => by
    rw [Task.runAll, propext (iff_false_intro not_meetsAmong_nil)]
    exact h.nil w
  | t :: ts, depth, w => by
    have hfirst := h.run t depth w
    have hrest := h.runAll ts depth (t.run env workers depth w).2
    obtain ⟨results, v, hall⟩ :=
      Task.runAll_ok env workers depth ts (t.run env workers depth w).2
    rw [hall] at hrest
    rw [Task.runAll_cons env workers depth t ts w hall, propext meetsAmong_cons]
    exact h.append hfirst hrest

end

end Execution

/-! ### Running tasks -/

namespace Task

open Execution

variable {env : Surroundings} {workers : Value} {t : Task} {ts : List Task} {depth : Nat}
  {w : World}

/-- A group runs the tasks nested in it. -/
theorem doing_group (hkind : TaskKind.ofName t.type = .ok .fanOut) (env : Surroundings)
    (workers : Value) (depth : Nat) (w : World) : t.doing env workers depth w =
      fanOut workers (some (runAll env workers (depth + 1) t.nested)) w := by
  rw [doing, execute, Run.bind_lift hkind]

/-- **What is told and counted while a task is doing** is what the tasks nested in it tell and
count, if it runs them, and otherwise nothing. -/
theorem doing_cases (t : Task) (env : Surroundings) (workers : Value) (depth : Nat) (w : World) :
    (TaskKind.ofName t.type = .ok .fanOut ∧ checkWorkers workers = .ok () ∧
      (t.doing env workers depth w).2 = (runAll env workers (depth + 1) t.nested w).2) ∨
    (¬ (TaskKind.ofName t.type = .ok .fanOut ∧ checkWorkers workers = .ok ()) ∧
      w.SameTold (t.doing env workers depth w).2) := by
  by_cases hkind : TaskKind.ofName t.type = .ok .fanOut
  · rw [doing_group hkind, fanOut]
    cases hworkers : checkWorkers workers with
    | error e =>
      rw [Run.bind_error (Run.lift_run (.error e) w)]
      exact .inr ⟨by simp, .refl w⟩
    | ok _ =>
      obtain ⟨results, v, hall⟩ := runAll_ok env workers (depth + 1) t.nested w
      rw [Run.bind_lift rfl, Run.bind_ok hall, hall]
      exact .inl ⟨hkind, rfl, rfl⟩
  · exact .inr ⟨fun h => hkind h.1, execute_silent t env _ hkind w⟩

/-- What a task tells while it is doing: the tasks nested in it tell it. -/
theorem doing_tells (hnested : ∃ log, w.Tells log (runAll env workers (depth + 1) t.nested w).2 ∧
      Stands (LosesAmong env workers (depth + 1) t.nested w) log) :
    ∃ log, w.Tells log (t.doing env workers depth w).2 ∧
      Stands (TaskKind.ofName t.type = .ok .fanOut ∧ checkWorkers workers = .ok () ∧
        LosesAmong env workers (depth + 1) t.nested w) log := by
  rcases t.doing_cases env workers depth w with ⟨hkind, hworkers, hworld⟩ | ⟨hnot, hsame⟩
  · rw [hworld]
    obtain ⟨log, htells, hstands⟩ := hnested
    exact ⟨log, htells, hstands.congr ⟨fun h => ⟨hkind, hworkers, h⟩, fun h => h.2.2⟩⟩
  · exact ⟨[], hsame.tells, .nil fun h => hnot ⟨h.1, h.2.1⟩⟩

/-- **How running a task comes about**: it begins and is announced with what it does. Or it does
not: an error leaves it at once, or its guard fails, or it is skipped. -/
theorem run_shapes (t : Task) (env : Surroundings) (workers : Value) (depth : Nat) (w : World) :
    (Begins ⟨depth, t, w⟩ ∧
      t.run env workers depth w = t.announce depth (t.doing env workers depth) w) ∨
    (¬ Begins ⟨depth, t, w⟩ ∧ ((∃ e, t.run env workers depth w = (.error e, w)) ∨
      (t.IsShown ∧ ∃ reason,
        t.run env workers depth w = t.announce depth (pure (.failed reason)) w) ∨
      (t.IsShown ∧ ∃ reason, t.run env workers depth w = t.skip depth reason w))) := by
  by_cases hshown : t.IsShown
  · cases hguard : t.skipReason w.store with
    | error e =>
      have hnot : ¬ Begins ⟨depth, t, w⟩ := fun h => by cases hguard.symm.trans h.unskipped
      refine .inr ⟨hnot, ?_⟩
      rw [run_of_guard hguard]
      split
      · exact .inr (.inl ⟨hshown, _, rfl⟩)
      · exact .inl ⟨e, rfl⟩
    | ok skipped =>
      cases skipped with
      | some reason =>
        have hnot : ¬ Begins ⟨depth, t, w⟩ := fun h => by cases hguard.symm.trans h.unskipped
        refine .inr ⟨hnot, .inr (.inr ⟨hshown, reason, ?_⟩)⟩
        rw [run_eq, guarded, Run.bind_ok (Run.store_run w), hguard]
      | none => exact .inl ⟨⟨hguard, hshown⟩, run_unskipped hguard⟩
  · -- a task without a name to show leaves before it is told to begin
    exact .inr ⟨fun h => hshown h.shown, .inl (run_untold hshown env workers depth w)⟩

/-- A task that does not begin loses none. -/
theorem stands_idle {log : List Notice} (hnot : ¬ Begins ⟨depth, t, w⟩) (hpaired : Paired log) :
    Stands (Loses env workers ⟨depth, t, w⟩) log :=
  .inl ⟨hpaired, fun hloses => hnot ((meets_of_not_begins hnot).1 hloses).begins⟩

/-- A task whose guard fails is told as a failure. -/
theorem failure_tells (hshown : t.IsShown) (depth : Nat) (reason : String) (w : World) :
    ∃ log, w.Tells log (t.announce depth (pure (.failed reason)) w).2 ∧ Paired log := by
  have hsilent := (Run.Silent.pure (Outcome.failed reason) (w.told (.start t depth))).tells
  obtain ⟨log, htells, hstands⟩ := announce_tells hshown hsilent (.nil not_false)
  rcases hstands with ⟨hpaired, -⟩ | ⟨-, ⟨e, v, hraised, -⟩ | hfalse⟩
  · exact ⟨log, htells, hpaired⟩
  · cases hraised
  · exact hfalse.elim

/-- A task loses an execution if an error leaves it, or if one of those that it runs does. -/
theorem loses_of_begins (hbegins : Begins ⟨depth, t, w⟩) :
    (Raises (t.doing env workers depth) (w.told (.start t depth)) ∨
      (TaskKind.ofName t.type = .ok .fanOut ∧ checkWorkers workers = .ok () ∧
        LosesAmong env workers (depth + 1) t.nested (w.told (.start t depth)))) ↔
      Loses env workers ⟨depth, t, w⟩ := by
  have hlost : Lost env workers ⟨depth, t, w⟩ ↔
      Raises (t.doing env workers depth) (w.told (.start t depth)) :=
    ⟨fun hlost => hlost.raises, fun hraises => ⟨hbegins, hraises⟩⟩
  rw [← hlost]
  exact (meets_of_begins hbegins).symm

/-- The step of `kept_tells`: a task tells what is told of it, around what it tells while it is
doing. -/
theorem run_tells_of (hnested : ∀ w, ∃ log,
      w.Tells log (runAll env workers (depth + 1) t.nested w).2 ∧
        Stands (LosesAmong env workers (depth + 1) t.nested w) log) (w : World) :
    ∃ log, w.Tells log (t.run env workers depth w).2 ∧
      Stands (Loses env workers ⟨depth, t, w⟩) log := by
  rcases t.run_shapes env workers depth w with
    ⟨hbegins, hrun⟩ | ⟨hnot, ⟨e, hrun⟩ | ⟨hshown, reason, hrun⟩ | ⟨hshown, reason, hrun⟩⟩
  · obtain ⟨inner, htells, hstands⟩ := doing_tells (hnested (w.told (.start t depth)))
    obtain ⟨log, htold, hlog⟩ := announce_tells hbegins.shown htells hstands
    rw [hrun]
    exact ⟨log, htold, hlog.congr (loses_of_begins hbegins)⟩
  · rw [hrun]
    exact ⟨[], (World.SameTold.refl w).tells, stands_idle hnot .nil⟩
  · obtain ⟨log, htells, hpaired⟩ := failure_tells hshown depth reason w
    rw [hrun]
    exact ⟨log, htells, stands_idle hnot hpaired⟩
  · rw [hrun]
    exact ⟨_, skip_tells hshown depth reason w, stands_idle hnot (.aside rfl rfl .nil)⟩

/-- **What running a task tells**: every start has its result, unless an execution is lost. -/
theorem kept_tells (env : Surroundings) (workers : Value) :
    Kept env workers (Lost env workers) fun w lost v =>
      ∃ log, w.Tells log v ∧ Stands lost log where
  nil w := ⟨[], (World.SameTold.refl w).tells, .nil not_false⟩
  append := by
    rintro u v w p q ⟨log, htells, hstands⟩ ⟨more, hmore, hrest⟩
    exact ⟨log ++ more, htells.trans hmore, hstands.append hrest⟩
  task _ _ w hnested := run_tells_of hnested w

end Task

/-! ### Runs of plans -/

namespace Plan

open Execution

variable {plan : Plan} {env : Surroundings} {fuel i : Nat} {w w' : World}

/-- A turn in which an execution is lost. -/
def LosesIn (plan : Plan) (env : Surroundings) (v : Turn) : Prop :=
  Loses env plan.maxWorkers ⟨0, v.task, v.before⟩

/-- Such a relation holds of following a plan. -/
theorem Walk.kept {sort : Execution → Prop} {rel : World → Prop → World → Prop} {vs : List Turn}
    {r : Except Error Bool × World} (h : plan.Walk env fuel i w vs r)
    (hkept : Kept env plan.maxWorkers sort rel) :
    rel w (∃ v ∈ vs, Meets env plan.maxWorkers sort ⟨0, v.task, v.before⟩) r.2 := by
  have hworld := plan.step_world env
  induction h with
  | past _ => simpa using hkept.nil _
  | tired _ => simpa using hkept.nil _
  | @ended fuel i w w' t e _ hstep =>
    have hturn := hkept.run t 0 w
    rw [← hworld i t w, hstep] at hturn
    simpa using hturn
  | @onward fuel i j w w' t vs r _ hstep _ ih =>
    have hturn := hkept.run t 0 w
    rw [← hworld i t w, hstep] at hturn
    simpa using hkept.append hturn ih

/-- **Such a relation holds of what the tasks of a run do**, up to their end. -/
theorem Ends.kept {sort : Execution → Prop} {rel : World → Prop → World → Prop}
    (hshown : w.console.showHeader plan = .ok ()) {ending : Option Error} {v : World}
    (h : plan.Ends env fuel w ending v) (hkept : Kept env plan.maxWorkers sort rel) :
    rel (w.told (.header plan))
      (∃ v ∈ plan.course env fuel w, Meets env plan.maxWorkers sort ⟨0, v.task, v.before⟩) v := by
  rw [← h.world]
  cases hchecked : Task.checkAll plan.tasks with
  | error e =>
    rw [perform_of_fault hchecked, course_of_fault hchecked]
    simpa using hkept.nil _
  | ok _ => exact (walk_of_checked hshown hchecked env fuel).kept hkept

theorem task_mem_of_course {v : Turn} (hv : v ∈ plan.course env fuel w) : v.task ∈ plan.tasks := by
  unfold course at hv
  split at hv
  · exact List.mem_of_getElem? ((plan.walk env fuel 0 _).task_eq v hv)
  · cases hv

/-- **A report accounts for a log**: every start in it has its result, there are as many starts as
tasks counted as completed or failed, and as many skips as tasks counted as skipped. -/
structure Report.AccountsFor (report : Report) (log : List Notice) : Prop where
  paired : Paired log
  started : log.countP Notice.isStart = report.completed + report.failed
  skipped : log.countP Notice.isSkip = report.skipped

/-- An ending is told aside: an error, or nothing. -/
theorem toldEnding_tells (v : World) (ending : Option Error) :
    ∃ log, v.Tells log (toldEnding v ending) ∧ Paired log := by
  cases ending with
  | none => exact ⟨[], (World.SameTold.refl v).tells, .nil⟩
  | some e =>
    have haside : (errorNotice e).isStart = false ∧ (errorNotice e).isResult = false ∧
        (errorNotice e).isSkip = false := by
      unfold errorNotice
      split
      · exact ⟨rfl, rfl, rfl⟩
      · exact ⟨rfl, rfl, rfl⟩
    obtain ⟨hstart, hresult, hskip⟩ := haside
    exact ⟨_, World.tells_told hresult hskip v, .aside hstart hresult .nil⟩

/-- Clearing the variables changes neither what was told nor what was counted. -/
theorem closed_tells (plan : Plan) (v : World) :
    v.Tells [.summary v.completed v.failed v.skipped Task.noTime] (plan.closed v) :=
  ⟨rfl, rfl, rfl⟩

/-- **What a whole run tells**: the title, what its turns tell, an error if it ends in one, and the
summary. -/
theorem run_tells {report : Report} (h : plan.run env fuel w = (.ok (some report), w')) :
    report.completed = w'.completed ∧ report.failed = w'.failed ∧ report.skipped = w'.skipped ∧
      ∃ log, w.Tells log w' ∧ Stands (∃ v ∈ plan.course env fuel w, plan.LosesIn env v) log := by
  obtain ⟨hshown, ending, v, hends, rfl, rfl⟩ := ends_of_run h
  have htitle : w.Tells [.header plan] (w.told (.header plan)) := World.tells_told rfl rfl w
  obtain ⟨log, htasks, hstands⟩ := hends.kept hshown (Task.kept_tells env plan.maxWorkers)
  obtain ⟨more, hending, hpaired⟩ := toldEnding_tells v ending
  have hsummary := plan.closed_tells (toldEnding v ending)
  have hbegun : Stands False [Notice.header plan] := .inl ⟨.aside rfl rfl .nil, not_false⟩
  have hrest := hpaired.append (.aside rfl rfl .nil :
    Paired [.summary (toldEnding v ending).completed (toldEnding v ending).failed
      (toldEnding v ending).skipped Task.noTime])
  exact ⟨rfl, rfl, rfl, _, (htitle.trans htasks).trans (hending.trans hsummary),
    ((hbegun.append hstands).append (.inl ⟨hrest, not_false⟩)).congr
      (by rw [or_false, false_or]; rfl)⟩

/-- **When a run accounts for every task**: exactly if no execution of its turns is lost, at any
depth. In any case it has counted as completed or failed as many tasks as it has told results of,
and as skipped as many as it has told to be skipped. -/
theorem accountsFor_iff {store : Store} {files : FileTree} {console : Console} {report : Report}
    (h : plan.run env fuel (.start store files console) = (.ok (some report), w')) :
    (w'.notices.countP Notice.isResult = report.completed + report.failed ∧
      w'.notices.countP Notice.isSkip = report.skipped) ∧
    (report.AccountsFor w'.notices ↔
      ∀ v ∈ plan.course env fuel (.start store files console), ∀ x,
        Within env plan.maxWorkers ⟨0, v.task, v.before⟩ x → ¬ x.Lost env plan.maxWorkers) := by
  obtain ⟨hcompleted, hfailed, hskipped, log, htells, hstands⟩ := run_tells h
  have hnotices : w'.notices = log := htells.notices
  have hended : log.countP Notice.isResult = report.completed + report.failed := by
    have hcount := htells.ended
    rw [hcompleted, hfailed, hcount]
    exact (Nat.zero_add _).symm
  have hskips : log.countP Notice.isSkip = report.skipped := by
    have hcount := htells.skipped
    rw [hskipped, hcount]
    exact (Nat.zero_add _).symm
  have hlost : (∀ v ∈ plan.course env fuel (.start store files console), ∀ x,
      Within env plan.maxWorkers ⟨0, v.task, v.before⟩ x → ¬ x.Lost env plan.maxWorkers) ↔
        ¬ ∃ v ∈ plan.course env fuel (.start store files console), plan.LosesIn env v := by
    simp [LosesIn, Loses]
  rw [hnotices, hlost]
  refine ⟨⟨hended, hskips⟩, ?_⟩
  rcases hstands with ⟨hpaired, hnot⟩ | ⟨hlt, hloses⟩
  · exact ⟨fun _ => hnot, fun _ => ⟨hpaired, hpaired.countP_eq.trans hended, hskips⟩⟩
  · refine ⟨fun haccounts => ?_, fun hnot => absurd hloses hnot⟩
    have hstarted := haccounts.started
    omega

/-! ### A group of one task -/

/-- A plan of a group that is to be gone on behind. -/
def groupPlan (nested : List Task) : Plan where
  name := .str "Workflow"
  tasks := [.mk "p" "parallel" .null .null .null .proceed [] nested]
  policy := .keepAsIs
  maxWorkers := .null
  clearOnFinish := .bool false
  connections := []
  vars := []

/-- A run of such a plan. -/
def groupRun (nested : List Task) : Except Error (Option Report) × World :=
  (groupPlan nested).run ⟨⟨"", []⟩, [], []⟩ 2 (.start (.empty .keepAsIs) ⟨[], []⟩)

/-- A task that clears the variables. -/
def clearTask : Task :=
  .mk "a" "variables" .null .null .null .stop [(.str "action", .str "clear")] []

/-- Clearing the variables raises no error. -/
theorem not_lost_clearTask (workers : Value) (depth : Nat) (w : World) :
    ¬ Lost env workers ⟨depth, clearTask, w⟩ := by
  rintro ⟨-, e, v, hraised, -⟩
  cases hraised

theorem not_loses_clearTask (workers : Value) (depth : Nat) (w : World) :
    ¬ Loses env workers ⟨depth, clearTask, w⟩ := by
  rw [loses_iff]
  rintro (hlost | ⟨hruns, -⟩)
  · exact not_lost_clearTask workers depth w hlost
  · have hkind : TaskKind.ofName clearTask.type ≠ .ok .fanOut := by decide
    exact hkind hruns.kind

theorem run_clearTask (env : Surroundings) (workers : Value) (depth : Nat) (w : World) :
    ∃ output next v, clearTask.run env workers depth w = (.ok (.done output next), v) := by
  have hdoing : clearTask.doing env workers depth (w.told (.start clearTask depth)) =
      (.ok (.done ("Cleared " ++ countText w.store.size) none),
        { w.told (.start clearTask depth) with store := w.store.clear }) := rfl
  obtain ⟨v, hrun⟩ := Task.announce_done ⟨_, rfl⟩ (Task.settle_ok hdoing)
  exact ⟨_, _, v, by rw [Task.run_unskipped rfl, hrun]⟩

/-- A group that clears the variables. -/
def clearGroup : Task := .mk "p" "parallel" .null .null .null .proceed [] [clearTask]

/-- Nor does a group raise an error in which they are cleared. -/
theorem not_lost_clearGroup (w : World) : ¬ Lost env .null ⟨0, clearGroup, w⟩ := by
  rintro ⟨-, e, v, hraised, -⟩
  obtain ⟨output, next, u, hrun⟩ := run_clearTask env .null 1 (w.told (.start clearGroup 0))
  have hall : Task.runAll env .null 1 [clearTask] (w.told (.start clearGroup 0)) =
      (.ok [(clearTask, .ok (.done output next))], u) := by
    have hnil : Task.runAll env .null 1 []
        (clearTask.run env .null 1 (w.told (.start clearGroup 0))).2 = (.ok [], u) := by
      rw [hrun, Task.runAll]
      rfl
    rw [Task.runAll_cons env .null 1 clearTask [] _ hnil, hrun]
  have hjoin : ∃ done, Task.joinOutcomes [(clearTask, .ok (.done output next))] =
      .ok (.done done none) :=
    Task.joinOutcomes_done_iff.2 (by simp [Task.Harmless])
  obtain ⟨done, hdone⟩ := hjoin
  have hdoing : clearGroup.doing env .null 0 (w.told (.start clearGroup 0)) =
      (.ok (.done done none), u) := by
    have hnested : Task.runAll env .null (0 + 1) clearGroup.nested
        (w.told (.start clearGroup 0)) = _ := hall
    rw [Task.doing_group rfl, Task.fanOut, Run.bind_lift (rfl : checkWorkers .null = .ok ()),
      Run.bind_ok hnested, Run.lift_run, hdone]
  have hkept := hdoing.symm.trans hraised
  cases hkept

theorem not_loses_clearGroup (w : World) : ¬ Loses env .null ⟨0, clearGroup, w⟩ := by
  rw [loses_iff]
  rintro (hlost | ⟨-, hloses⟩)
  · exact not_lost_clearGroup w hlost
  · rcases losesAmong_cons.1 hloses with hclear | hnone
    · exact not_loses_clearTask _ _ _ hclear
    · exact not_losesAmong_nil hnone

/-- The error of a run, the tasks that it counts as completed and as failed, and the starts that it
has told. -/
def figures : Except Error (Option Report) × World → Option (Option String × Nat × Nat × Nat)
  | (.ok (some report), w) =>
    some (report.error, report.completed, report.failed, w.notices.countP Notice.isStart)
  | _ => none

theorem exists_of_figures {r : Except Error (Option Report) × World} {error : Option String}
    {completed failed starts : Nat} (h : figures r = some (error, completed, failed, starts)) :
    ∃ report w, r = (.ok (some report), w) ∧ report.error = error ∧
      report.completed = completed ∧ report.failed = failed ∧
      w.notices.countP Notice.isStart = starts := by
  unfold figures at h
  split at h
  · cases h
    exact ⟨_, _, rfl, rfl, rfl, rfl, rfl⟩
  · cases h

/-- Both tasks of the group are accounted for. -/
theorem groupRun_accounted : ∃ report w, groupRun [clearTask] = (.ok (some report), w) ∧
    report.error = none ∧ report.AccountsFor w.notices := by
  have hfigures : figures (groupRun [clearTask]) = some (none, 2, 0, 2) := by decide +kernel
  obtain ⟨report, w, hrun, herror, -⟩ := exists_of_figures hfigures
  refine ⟨report, w, hrun, herror, (accountsFor_iff hrun).2.2 fun v hv x hx hlost => ?_⟩
  have htask : v.task = clearGroup := List.mem_singleton.1 (task_mem_of_course hv)
  rw [htask] at hx
  exact not_loses_clearGroup v.before ⟨x, hx, hlost⟩

/-- **A task that is missing in the account**: a group takes the error of a number that is no name
for a failure of its own, so that the run ends without an error. Two tasks were told to begin, and
one is counted. -/
theorem groupRun_not_accounted : ∃ report w,
    groupRun [Task.numberedRemoval] = (.ok (some report), w) ∧ report.error = none ∧
      w.notices.countP Notice.isStart = 2 ∧ report.completed + report.failed = 1 := by
  have hfigures : figures (groupRun [Task.numberedRemoval]) = some (none, 0, 1, 2) := by
    decide +kernel
  obtain ⟨report, w, hrun, herror, hcompleted, hfailed, hstarts⟩ := exists_of_figures hfigures
  exact ⟨report, w, hrun, herror, hstarts, by rw [hcompleted, hfailed]⟩

end Plan

end Runbook
