import Runbook.Proofs.Course
import Runbook.Proofs.Results

/-!
# Failures that a run goes on behind

A task can ask that a run goes on behind its failure. What its guard or its doing raises is a
failure if it is an error of expressions or variables, and what the task comes to may be a failure
of its own; every other error leaves the task. A failure is told and counted, the run goes on with
the next task, and a task that runs it with others does not fail because of it.

* `FailsWith`, `Escapes`: how a task fails, and how an error leaves it.
* `run_of_failsWith`, `run_cases`: what running a task comes to.
* `joinOutcomes_done_iff`: when a group of nested tasks succeeds.
* `continued_behind_failure`: what becomes of failures of tasks that ask to go on, and which errors
  leave them.
-/

namespace Runbook

open Runbook.Text Runbook.Display

namespace Task

/-- A task whose name can be shown: it has none, or one that is text. -/
def IsShown (t : Task) : Prop :=
  ∃ name, t.displayName.asText? = some name

/-- What a task does, with the tasks nested in it. -/
def doing (t : Task) (env : Surroundings) (workers : Value) (depth : Nat) : Run Outcome :=
  t.execute env workers (some (runAll env workers (depth + 1) t.nested))

/-- The world with a failure of a task told and counted. -/
def failing (t : Task) (reason : String) (depth : Nat) (w : World) : World :=
  { w.told (.result t false noTime none (some reason) depth) with failed := w.failed + 1 }

variable (t : Task) (env : Surroundings) (workers : Value) (depth : Nat) (w : World)

/-- **How a task fails**, and the world that is left: its guard or what it does raises an error of
expressions or variables, or what it does comes to a failure. -/
inductive FailsWith : String → World → Prop
  | guard {e : Error} (h : t.skipReason w.store = .error e) (he : e.isStoreError = true) :
    FailsWith ("when: " ++ e.message) (w.told (.start t depth))
  | raised {e : Error} {v : World} (hguard : t.skipReason w.store = .ok none)
    (h : t.doing env workers depth (w.told (.start t depth)) = (.error e, v))
    (he : e.isStoreError = true) : FailsWith e.message v
  | outcome {reason : String} {v : World} (hguard : t.skipReason w.store = .ok none)
    (h : t.doing env workers depth (w.told (.start t depth)) = (.ok (.failed reason), v)) :
    FailsWith reason v

/-- **How an error leaves a task**: it is another error, of its guard or of what it does. -/
inductive Escapes : Error → World → Prop
  | guard {e : Error} (h : t.skipReason w.store = .error e) (he : e.isStoreError = false) :
    Escapes e w
  | raised {e : Error} {v : World} (hguard : t.skipReason w.store = .ok none)
    (h : t.doing env workers depth (w.told (.start t depth)) = (.error e, v))
    (he : e.isStoreError = false) : Escapes e v

variable {t env workers depth w} {reason output : String} {v : World} {e : Error}

/-! ### What running a task comes to -/

theorem taskLine_shown (h : t.IsShown) (icon : String) (depth : Int) :
    ∃ line, Notice.taskLine icon t depth = .ok line := by
  obtain ⟨name, hname⟩ := h
  exact ⟨_, by rw [Notice.taskLine, Notice.escaped, hname]; rfl⟩

theorem start_shown (h : t.IsShown) (depth : Int) :
    ∃ lines, (Notice.start t depth).lines = .ok lines := by
  obtain ⟨line, hline⟩ := taskLine_shown h
    (if t.nested.isEmpty then Notice.runningIcon else Notice.groupIcon) depth
  exact ⟨_, by simp only [Notice.lines, hline]; rfl⟩

theorem result_shown (h : t.IsShown) (success : Bool) (output error : Option String) (depth : Int) :
    ∃ lines, (Notice.result t success noTime output error depth).lines = .ok lines := by
  obtain ⟨time, htime, -⟩ := Notice.exists_time
  obtain ⟨line, hline⟩ :=
    taskLine_shown h (if success then Notice.successIcon else Notice.failedIcon) depth
  cases success with
  | true =>
    rw [if_pos rfl] at hline
    exact ⟨_, by unfold Notice.lines Notice.resultLines; simp only [htime, hline]; rfl⟩
  | false =>
    rw [if_neg (by decide)] at hline
    exact ⟨_, by unfold Notice.lines Notice.resultLines; simp only [htime, hline]; rfl⟩

theorem skipped_shown (h : t.IsShown) (reason : String) (depth : Int) :
    ∃ lines, (Notice.skipped t reason depth).lines = .ok lines := by
  obtain ⟨line, hline⟩ := taskLine_shown h Notice.skippedIcon depth
  exact ⟨_, by simp only [Notice.lines, hline]; rfl⟩

section Announcing

variable {body : Run Outcome}

theorem settle_ok {o : Outcome} (h : body w = (.ok o, v)) : settle body w = (.ok o, v) := by
  rw [settle, Run.bind_ok (Run.attempt_run body w), h]
  rfl

theorem settle_error (h : body w = (.error e, v)) (he : e.isStoreError = true) :
    settle body w = (.ok (.failed e.message), v) := by
  rw [settle, Run.bind_ok (Run.attempt_run body w), h]
  simp only [he, if_true]
  rfl

theorem settle_escape (h : body w = (.error e, v)) (he : e.isStoreError = false) :
    settle body w = (.error e, v) := by
  rw [settle, Run.bind_ok (Run.attempt_run body w), h]
  simp only [he]
  rfl

/-- A failure is told and counted. -/
theorem announce_failed (hshown : t.IsShown)
    (h : settle body (w.told (.start t depth)) = (.ok (.failed reason), v)) :
    t.announce depth body w = (.ok (.failed reason), t.failing reason depth v) := by
  obtain ⟨_, hstart⟩ := start_shown hshown depth
  obtain ⟨_, hresult⟩ := result_shown hshown false none (some reason) depth
  rw [announce, Run.bind_ok (Run.tell_ok hstart w), Run.bind_ok h, conclude]
  exact Run.bind_ok (Run.tell_ok hresult v)

theorem announce_done (hshown : t.IsShown) {next : Option String}
    (h : settle body (w.told (.start t depth)) = (.ok (.done output next), v)) :
    ∃ v', t.announce depth body w = (.ok (.done output next), v') := by
  obtain ⟨_, hstart⟩ := start_shown hshown depth
  obtain ⟨_, hresult⟩ := result_shown hshown true (some output) none depth
  rw [announce, Run.bind_ok (Run.tell_ok hstart w), Run.bind_ok h, conclude]
  exact ⟨_, Run.bind_ok (Run.tell_ok hresult v)⟩

theorem announce_error (hshown : t.IsShown)
    (h : settle body (w.told (.start t depth)) = (.error e, v)) :
    t.announce depth body w = (.error e, v) := by
  obtain ⟨_, hstart⟩ := start_shown hshown depth
  rw [announce, Run.bind_ok (Run.tell_ok hstart w), Run.bind_error h]

end Announcing

/-- A task behind its guard. -/
theorem run_unskipped (h : t.skipReason w.store = .ok none) :
    t.run env workers depth w = t.announce depth (t.doing env workers depth) w := by
  rw [run_eq, guarded, Run.bind_ok (Run.store_run w), h]
  rfl

theorem run_of_guard (h : t.skipReason w.store = .error e) : t.run env workers depth w =
    (if e.isStoreError then t.announce depth (pure (.failed ("when: " ++ e.message)))
      else Run.fail e) w := by
  rw [run_eq, guarded, Run.bind_ok (Run.store_run w), h]

/-- **A failure is told and counted.** -/
theorem run_of_failsWith (hshown : t.IsShown) (h : t.FailsWith env workers depth w reason v) :
    t.run env workers depth w = (.ok (.failed reason), t.failing reason depth v) := by
  cases h with
  | guard h he =>
    rw [run_of_guard h, if_pos he]
    exact announce_failed hshown (settle_ok rfl)
  | raised hguard h he =>
    rw [run_unskipped hguard]
    exact announce_failed hshown (settle_error h he)
  | outcome hguard h =>
    rw [run_unskipped hguard]
    exact announce_failed hshown (settle_ok h)

theorem run_of_escapes (hshown : t.IsShown) (h : t.Escapes env workers depth w e v) :
    t.run env workers depth w = (.error e, v) := by
  cases h with
  | guard h he =>
    rw [run_of_guard h, if_neg (by simp [he])]
    rfl
  | raised hguard h he =>
    rw [run_unskipped hguard]
    exact announce_error hshown (settle_escape h he)

/-- **What running a task comes to**: it is done or skipped, it fails, or an error leaves it. -/
theorem run_cases (hshown : t.IsShown) (env : Surroundings) (workers : Value) (depth : Nat)
    (w : World) :
    (∃ output next v, t.run env workers depth w = (.ok (.done output next), v)) ∨
      (∃ reason v, t.FailsWith env workers depth w reason v) ∨
      ∃ e v, t.Escapes env workers depth w e v := by
  -- an error, of the guard or of the doing, becomes a failure or leaves the task by its family
  cases hguard : t.skipReason w.store with
  | error e =>
    cases he : e.isStoreError with
    | true => exact .inr (.inl ⟨_, _, .guard hguard he⟩)
    | false => exact .inr (.inr ⟨_, _, .guard hguard he⟩)
  | ok skipped =>
    cases skipped with
    | some reason =>
      obtain ⟨_, hlines⟩ := skipped_shown hshown reason depth
      have hskip : ∃ v, t.skip depth reason w = (.ok (.done "skipped" none), v) :=
        ⟨_, Run.bind_ok (Run.tell_ok hlines w)⟩
      obtain ⟨v, hskip⟩ := hskip
      refine .inl ⟨"skipped", none, v, ?_⟩
      rw [run_eq, guarded, Run.bind_ok (Run.store_run w), hguard]
      exact hskip
    | none =>
      rcases hdoing : t.doing env workers depth (w.told (.start t depth)) with ⟨e | o, v⟩
      · cases he : e.isStoreError with
        | true => exact .inr (.inl ⟨_, _, .raised hguard hdoing he⟩)
        | false => exact .inr (.inr ⟨_, _, .raised hguard hdoing he⟩)
      · cases o with
        | failed reason => exact .inr (.inl ⟨_, _, .outcome hguard hdoing⟩)
        | done output next =>
          obtain ⟨v', hrun⟩ := announce_done hshown (settle_ok hdoing)
          exact .inl ⟨output, next, v', by rw [run_unskipped hguard, hrun]⟩

/-- An error comes from running a task exactly if it leaves the task. -/
theorem run_error_iff (hshown : t.IsShown) :
    t.run env workers depth w = (.error e, v) ↔ t.Escapes env workers depth w e v := by
  refine ⟨fun h => ?_, run_of_escapes hshown⟩
  rcases run_cases hshown env workers depth w with
    ⟨_, _, _, hdone⟩ | ⟨_, _, hfails⟩ | ⟨_, _, hescapes⟩
  · rw [hdone] at h; cases h
  · rw [run_of_failsWith hshown hfails] at h; cases h
  · have hrun := run_of_escapes hshown hescapes
    rw [h] at hrun
    cases hrun
    exact hescapes

/-! ### Groups of tasks -/

/-- A result of a nested task that its group does not fail because of: the task was done, or has
failed and asks to go on. -/
def Harmless (r : NestedResult) : Prop :=
  (∃ output next, r.2 = .ok (.done output next)) ∨
    (∃ reason, r.2 = .ok (.failed reason)) ∧ r.1.onError = .proceed

theorem nestedFailure?_eq_none {r : NestedResult} : nestedFailure? r = .ok none ↔ Harmless r := by
  obtain ⟨t, result⟩ := r
  have hname : ∀ reason : String,
      t.displayName.text.map (fun name => some (name ++ ": " ++ reason)) ≠ .ok none := by
    intro reason
    cases t.displayName.text <;> simp [Except.map]
  rcases result with e | ⟨output, next⟩ | reason
  · simp [nestedFailure?, Harmless, hname]
  · simp [nestedFailure?, Harmless]
  · cases honError : t.onError <;> simp [nestedFailure?, Harmless, honError, hname]

theorem mapM_nestedFailure? {results : List NestedResult} :
    (∃ failures, results.mapM nestedFailure? = .ok failures ∧
        failures.filterMap (fun f => f) = []) ↔
      ∀ r ∈ results, Harmless r := by
  constructor
  · rintro ⟨failures, hfailures, hnone⟩ r hr
    obtain ⟨failure, hmem, hfailure⟩ :=
      exists_of_forall₂ (List.Forall₂.flip (mapM_ok_iff.1 hfailures)) r hr
    obtain rfl : failure = none := List.filterMap_eq_nil_iff.1 hnone failure hmem
    exact nestedFailure?_eq_none.1 hfailure
  · intro h
    obtain ⟨failures, hfailures⟩ : ∃ failures, results.mapM nestedFailure? = .ok failures :=
      exists_mapM fun r hr => ⟨none, nestedFailure?_eq_none.2 (h r hr)⟩
    refine ⟨failures, hfailures, List.filterMap_eq_nil_iff.2 fun failure hmem => ?_⟩
    obtain ⟨r, hr, hfailure⟩ := exists_of_forall₂ (mapM_ok_iff.1 hfailures) failure hmem
    rw [nestedFailure?_eq_none.2 (h r hr)] at hfailure
    exact (Except.ok.inj hfailure).symm

/-- What a number of nested tasks come to, with the failures that are told. -/
def summary (count : Nat) (told : List String) : Outcome :=
  if told.isEmpty then .done ("Completed " ++ natText count ++ " task(s)") none
  else .failed (natText told.length ++ " of " ++ natText count ++ " task(s) failed: " ++
    "; ".intercalate (Notice.sortTexts told))

/-- What results come to together, if none of them was interrupted and each failure has a text. -/
theorem joinOutcomes_ok_iff {results : List NestedResult} {o : Outcome} :
    joinOutcomes results = .ok o ↔ results.any wasInterrupted = false ∧
      ∃ failures, results.mapM nestedFailure? = .ok failures ∧
        o = summary results.length (failures.filterMap fun f => f) := by
  have hjoin : ∀ failures, results.any wasInterrupted = false →
      results.mapM nestedFailure? = .ok failures →
        joinOutcomes results = .ok (summary results.length (failures.filterMap fun f => f)) := by
    intro failures hcalm hfailures
    unfold joinOutcomes
    rw [if_neg (by simp [hcalm]), hfailures]
    simp only [bind, Except.bind, summary]
    split <;> rfl
  constructor
  · intro h
    cases hany : results.any wasInterrupted with
    | true =>
      unfold joinOutcomes at h
      rw [if_pos hany] at h
      cases h
    | false =>
      cases hfailures : results.mapM nestedFailure? with
      | error e =>
        unfold joinOutcomes at h
        rw [if_neg (by simp [hany]), hfailures] at h
        cases h
      | ok failures =>
        exact ⟨rfl, failures, rfl, Except.ok.inj (h.symm.trans (hjoin failures hany hfailures))⟩
  · rintro ⟨hcalm, failures, hfailures, rfl⟩
    exact hjoin failures hcalm hfailures

/-- **A group succeeds** exactly if it does not fail because of any of its tasks. -/
theorem joinOutcomes_done_iff {results : List NestedResult} :
    (∃ output, joinOutcomes results = .ok (.done output none)) ↔ ∀ r ∈ results, Harmless r := by
  rw [← mapM_nestedFailure?]
  constructor
  · rintro ⟨output, h⟩
    obtain ⟨-, failures, hfailures, ho⟩ := joinOutcomes_ok_iff.1 h
    refine ⟨failures, hfailures, ?_⟩
    rw [summary] at ho
    split at ho
    · rename_i hempty
      exact List.isEmpty_iff.1 hempty
    · cases ho
  · intro h
    -- an interruption is an error of its task, and none is harmless
    have hcalm : results.any wasInterrupted = false := by
      rw [List.any_eq_false]
      intro r hr
      rcases mapM_nestedFailure?.1 h r hr with ⟨_, _, hdone⟩ | ⟨⟨_, hfailed⟩, -⟩
      · simp [wasInterrupted, hdone]
      · simp [wasInterrupted, hfailed]
    obtain ⟨failures, hfailures, hnone⟩ := h
    refine ⟨"Completed " ++ natText results.length ++ " task(s)", ?_⟩
    exact joinOutcomes_ok_iff.2 ⟨hcalm, failures, hfailures, by rw [hnone]; rfl⟩

theorem runAll_cons (env : Surroundings) (workers : Value) (depth : Nat) (t : Task)
    (ts : List Task) (w : World) {results : List NestedResult} {w' : World}
    (h : runAll env workers depth ts (t.run env workers depth w).2 = (.ok results, w')) :
    runAll env workers depth (t :: ts) w =
      (.ok ((t, (t.run env workers depth w).1) :: results), w') := by
  rw [runAll]
  exact (Run.bind_ok (Run.attempt_run _ w)).trans (Run.bind_ok h)

/-- Nested tasks are all run, whatever the others come to. -/
theorem runAll_ok (env : Surroundings) (workers : Value) (depth : Nat) (ts : List Task)
    (w : World) :
    ∃ results w', runAll env workers depth ts w = (.ok results, w') := by
  induction ts generalizing w with
  | nil => exact ⟨[], w, by rw [runAll]; rfl⟩
  | cons t ts ih =>
    obtain ⟨results, w', h⟩ := ih (t.run env workers depth w).2
    exact ⟨_, w', runAll_cons env workers depth t ts w h⟩

theorem runAll_append {ts us : List Task} {rs qs : List NestedResult} {w u w' : World}
    (hts : runAll env workers depth ts w = (.ok rs, u))
    (hus : runAll env workers depth us u = (.ok qs, w')) :
    runAll env workers depth (ts ++ us) w = (.ok (rs ++ qs), w') := by
  induction ts generalizing w rs with
  | nil =>
    rw [runAll] at hts
    cases hts
    exact hus
  | cons t ts ih =>
    obtain ⟨results, u', h⟩ := runAll_ok env workers depth ts (t.run env workers depth w).2
    rw [runAll_cons env workers depth t ts w h] at hts
    cases hts
    exact runAll_cons env workers depth t (ts ++ us) w (ih h)

/-! ### Failures that a run goes on behind -/

/-- **What becomes of a failure behind which a run is to go on**: it is told and counted, a run goes
on with the next task, and a group of tasks succeeds exactly if it does not fail because of any of
the others. -/
structure Continued (t : Task) (env : Surroundings) (workers : Value) (depth : Nat) (w : World)
    (reason : String) (v : World) : Prop where
  recorded : t.run env workers depth w = (.ok (.failed reason), t.failing reason depth v)
  goes_on : ∀ (plan : Plan) (fuel i : Nat), depth = 0 → plan.maxWorkers = workers →
    plan.tasks[i]? = some t →
      plan.flow env (fuel + 1) i w = plan.flow env fuel (i + 1) (t.failing reason depth v)
  grouped : ∀ (group : Task) (before behind : List Task) (start : World) (rs : List NestedResult),
    TaskKind.ofName group.type = .ok .fanOut → checkWorkers workers = .ok () →
      group.nested = before ++ t :: behind →
        runAll env workers depth before start = (.ok rs, w) →
          ∃ qs, (runAll env workers depth behind (t.failing reason depth v)).1 = .ok qs ∧
            ((∃ output, (group.execute env workers
              (some (runAll env workers depth group.nested)) start).1 = .ok (.done output none)) ↔
                ∀ r ∈ rs ++ qs, Harmless r)

theorem flow_of_failed {plan : Plan} {fuel i : Nat} (ht : plan.tasks[i]? = some t)
    (honError : t.onError = .proceed)
    (h : t.run env plan.maxWorkers 0 w = (.ok (.failed reason), v)) :
    plan.flow env (fuel + 1) i w = plan.flow env fuel (i + 1) v := by
  have hstep : plan.step env i t w = (.ok (i + 1), v) := by
    have hnone : Plan.stopError? t (.failed reason) = .ok none := by
      unfold Plan.stopError?
      rw [honError]
    rw [Plan.step, Run.bind_ok h, Run.bind_lift hnone]
    rfl
  rw [Plan.flow.eq_3 _ _ _ _ _ ht]
  exact Run.bind_ok hstep

/-- A group comes to what the results of its tasks come to together. -/
theorem execute_fanOut {group : Task} {run : Run (List NestedResult)} {results : List NestedResult}
    {w' : World} (hkind : TaskKind.ofName group.type = .ok .fanOut)
    (hworkers : checkWorkers workers = .ok ()) (hrun : run w = (.ok results, w')) :
    group.execute env workers (some run) w = (joinOutcomes results, w') := by
  rw [execute, Run.bind_lift hkind]
  simp only [fanOut]
  rw [Run.bind_lift hworkers, Run.bind_ok hrun]
  rfl

theorem grouped_of_failed {group : Task} {before behind : List Task} {start : World}
    {rs : List NestedResult} (hkind : TaskKind.ofName group.type = .ok .fanOut)
    (hworkers : checkWorkers workers = .ok ()) (hnested : group.nested = before ++ t :: behind)
    (hbefore : runAll env workers depth before start = (.ok rs, w))
    (honError : t.onError = .proceed) (h : t.run env workers depth w = (.ok (.failed reason), v)) :
    ∃ qs, (runAll env workers depth behind v).1 = .ok qs ∧
      ((∃ output, (group.execute env workers
        (some (runAll env workers depth group.nested)) start).1 = .ok (.done output none)) ↔
          ∀ r ∈ rs ++ qs, Harmless r) := by
  obtain ⟨qs, u, hbehind⟩ := runAll_ok env workers depth behind v
  refine ⟨qs, by rw [hbehind], ?_⟩
  -- the tasks in front, the failed one and those behind it give the outcomes in their order
  have hcons : runAll env workers depth (t :: behind) w =
      (.ok ((t, .ok (.failed reason)) :: qs), u) := by
    have hrest := runAll_cons env workers depth t behind w (by rw [h]; exact hbehind)
    rw [h] at hrest
    exact hrest
  have hall := runAll_append hbefore hcons
  rw [← hnested] at hall
  have hharmless : Harmless (t, .ok (.failed reason)) := .inr ⟨⟨reason, rfl⟩, honError⟩
  rw [execute_fanOut hkind hworkers hall, joinOutcomes_done_iff]
  simp only [List.mem_append, List.mem_cons]
  constructor
  · rintro hresults r (hr | hr)
    · exact hresults r (.inl hr)
    · exact hresults r (.inr (.inr hr))
  · rintro hresults r (hr | rfl | hr)
    · exact hresults r (.inl hr)
    · exact hharmless
    · exact hresults r (.inr hr)

/-- **A run goes on behind every failure of a task that asks for it**, at any depth: whatever error
of expressions or variables its guard or its doing raises, and whatever failure it comes to. Only
other errors, which the task does not turn into a failure itself, leave the task. -/
theorem continued_behind_failure (honError : t.onError = .proceed) (hshown : t.IsShown)
    (env : Surroundings) (workers : Value) (depth : Nat) (w : World) :
    (∀ reason v, t.FailsWith env workers depth w reason v →
      t.Continued env workers depth w reason v) ∧
    ∀ e v, t.run env workers depth w = (.error e, v) ↔ t.Escapes env workers depth w e v := by
  refine ⟨fun reason v hfails => ?_, fun e v => run_error_iff hshown⟩
  have hrun := run_of_failsWith hshown hfails
  refine ⟨hrun, ?_, ?_⟩
  · rintro plan fuel i rfl rfl ht
    exact flow_of_failed ht honError hrun
  · intro group before behind start rs hkind hworkers hnested hbefore
    exact grouped_of_failed hkind hworkers hnested hbefore honError hrun

/-- A task whose guard is no expression. -/
def looseTask : Task :=
  .mk "a" "variables" .null .null (.str "$\x7bx\x7d") .proceed [(.str "action", .str "clear")] []

/-- The guard is a failure that a run goes on behind. -/
theorem continued_looseTask :
    looseTask.check = .ok () ∧ looseTask.Continued ⟨⟨"", []⟩, [], []⟩ .null 1
      (.start (.empty .keepAsIs) ⟨[], []⟩) "when: Expression must start with Scope.Key: 'x'"
      (World.told (.start (.empty .keepAsIs) ⟨[], []⟩) (.start looseTask 1)) := by
  have hguard : looseTask.skipReason (.empty .keepAsIs) =
      .error (.malformed "x" .noScopeAndKey) := rfl
  have hreason : "when: Expression must start with Scope.Key: 'x'" =
      "when: " ++ (Error.malformed "x" .noScopeAndKey).message := by decide
  refine ⟨rfl, (continued_behind_failure rfl ⟨_, rfl⟩ _ _ _ _).1 _ _ ?_⟩
  rw [hreason]
  exact .guard hguard rfl

/-- A task that is to remove a number. -/
def numberedRemoval : Task :=
  .mk "a" "variables" .null .null .null .proceed
    [(.str "action", .str "remove"), (.str "names", .list [.int 5])] []

/-- A plan that is to go on behind it. -/
def numberedPlan : Plan where
  name := .str "Workflow"
  tasks := [numberedRemoval, looseTask]
  policy := .keepAsIs
  maxWorkers := .null
  clearOnFinish := .bool false
  connections := []
  vars := []

/-- The error of a number that is no name leaves the task, and ends the run. -/
theorem numberedRemoval_not_continued :
    Task.checkAll numberedPlan.tasks = .ok () ∧ numberedRemoval.onError = .proceed ∧
      (¬ ∃ reason, (numberedRemoval.run ⟨⟨"", []⟩, [], []⟩ .null 0
        (.start (.empty .keepAsIs) ⟨[], []⟩)).1 = .ok (.failed reason)) ∧
      (numberedPlan.flow ⟨⟨"", []⟩, [], []⟩ 2 0 (.start (.empty .keepAsIs) ⟨[], []⟩)).1 =
        .error (.noMember "int" "strip") := by
  have hrun : (numberedRemoval.run ⟨⟨"", []⟩, [], []⟩ .null 0
      (.start (.empty .keepAsIs) ⟨[], []⟩)) = (.error (.noMember "int" "strip"), _) :=
    run_of_escapes ⟨_, rfl⟩ (.raised rfl rfl rfl)
  refine ⟨rfl, rfl, ?_, ?_⟩
  · rintro ⟨reason, h⟩
    rw [hrun] at h
    cases h
  · have hstep : numberedPlan.step ⟨⟨"", []⟩, [], []⟩ 0 numberedRemoval
        (.start (.empty .keepAsIs) ⟨[], []⟩) = (.error (.noMember "int" "strip"), _) :=
      Run.bind_error hrun
    rw [Plan.flow.eq_3 _ _ _ _ _ rfl]
    exact congrArg Prod.fst (Run.bind_error hstep)

end Task

end Runbook
