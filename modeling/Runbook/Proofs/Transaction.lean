import Runbook.Proofs.Running
import Runbook.Task.CallProcedure

/-!
# How a transaction uses its connection

A task that calls a procedure opens a connection, works over it, settles the work by a commit or a
rollback, and closes the connection. Whatever fails on the way, the connection is closed once and
last, a cursor is closed before anything is settled, and nothing is stored before the connection is
closed. The rollback alone can be missing: the handler of a failure names the procedure before it
rolls back, and a schema that cannot be trimmed has no name.

* `Connection.work`: what the work over an open connection comes to.
* `Connection.kinds_transact`: the uses of an open connection, as one of few courses.
* `Connection.Orderly`, `Connection.RollsBack`: what is asked of these uses.
* `Task.callProcedure_discipline`: the uses of a connection by a whole task.
-/

namespace Runbook

/-- What is done to a connection, without the names and the values it is done with. -/
inductive UseKind
  | opening
  | call
  | closeCursor
  | commit
  | rollback
  | close
  deriving DecidableEq

/-- The kind of a use. -/
def Use.kind : Use → UseKind
  | .connect _ => .opening
  | .openWith _ => .opening
  | .callProcedure .. => .call
  | .closeCursor => .closeCursor
  | .commit => .commit
  | .rollback => .rollback
  | .close => .close

namespace Connection

variable (c : Connection) (request : Request) (wanted : Bool)

/-! ### The work over an open connection -/

/-- A call comes to its cursor: it has arguments and a name, and the connection gives a cursor. -/
def MakesCursor : Prop :=
  (∃ arguments, request.arguments = .ok arguments) ∧
    (∃ name, request.qualifiedName = .ok name) ∧ c.cursor = .ok ()

/-- The call returns, all results behind it can be read, and so can the output parameters. -/
def Responds : Prop :=
  ∃ returned sets updates outputs, c.call = .ok returned ∧
    walk c.hasNext c.results = .ok (sets, updates) ∧
    Response.collect request.params returned = .ok outputs

/-- What the work over an open connection comes to: the arguments, the name, the cursor, the call
with everything behind it, and the commit if it is wanted. The first of them that fails is the
error of the work. -/
def work : Except Error Response := do
  let _ ← request.arguments
  let _ ← request.qualifiedName
  c.cursor
  let r ← c.respond request
  if wanted then c.commit
  return r

/-- The work fails, and not by an interruption. -/
def Raises : Prop :=
  ∃ e, c.work request wanted = .error e ∧ e.isInterrupt = false

/-- The uses of an open connection in the work. -/
def workUses : List Use :=
  (c.execute request).2 ++
    match (c.execute request).1, wanted with
    | .ok _, true => [.commit]
    | _, _ => []

variable {c request wanted}

theorem responds_of_respond {r : Response} (h : c.respond request = .ok r) :
    c.Responds request := by
  unfold respond at h
  obtain ⟨returned, hcall, h⟩ := exists_of_bind_ok h
  obtain ⟨⟨sets, updates⟩, hwalk, h⟩ := exists_of_bind_ok h
  obtain ⟨outputs, houtputs, -⟩ := exists_of_bind_ok h
  exact ⟨returned, sets, updates, outputs, hcall, hwalk, houtputs⟩

/-- A call either comes to its cursor, or fails and leaves the connection unused. -/
theorem execute_cases (c : Connection) (request : Request) :
    (c.MakesCursor request ∧ (c.execute request).1 = c.respond request ∧
      (c.execute request).2.map Use.kind = [.call, .closeCursor] ∧
      ∀ wanted, c.work request wanted = do
        let r ← c.respond request
        if wanted then c.commit
        return r) ∨
    (¬ c.MakesCursor request ∧ (c.execute request).2 = [] ∧
      ∃ e, (c.execute request).1 = .error e ∧ ∀ wanted, c.work request wanted = .error e) := by
  unfold execute work MakesCursor
  rcases request.arguments with e | arguments
  · right
    refine ⟨?_, rfl, e, rfl, fun _ => rfl⟩
    rintro ⟨⟨_, h⟩, -⟩
    cases h
  rcases request.qualifiedName with e | name
  · right
    refine ⟨?_, rfl, e, rfl, fun _ => rfl⟩
    rintro ⟨-, ⟨_, h⟩, -⟩
    cases h
  rcases c.cursor with e | ⟨⟩
  · right
    refine ⟨?_, rfl, e, rfl, fun _ => rfl⟩
    rintro ⟨-, -, h⟩
    cases h
  · left
    exact ⟨⟨⟨arguments, rfl⟩, ⟨name, rfl⟩, rfl⟩, rfl, rfl, fun _ => rfl⟩

/-- The work succeeds exactly if the call does and the commit that is wanted. -/
theorem work_eq_ok_iff {r : Response} :
    c.work request wanted = .ok r ↔
      c.MakesCursor request ∧ c.respond request = .ok r ∧ (wanted = true → c.commit = .ok ()) := by
  rcases execute_cases c request with ⟨hcursor, -, -, hwork⟩ | ⟨hcursor, -, e, -, hwork⟩
  · rw [hwork wanted]
    rcases c.respond request with e | r'
    · simp [bind, Except.bind]
    · cases wanted with
      | false => simp [hcursor, bind, Except.bind, pure, Except.pure]
      | true => cases c.commit <;> simp [hcursor, bind, Except.bind, pure, Except.pure]
  · simp [hwork wanted, hcursor]

/-- **A transaction settles its work**: it keeps what the work came to, or undoes it. -/
theorem transact_eq (c : Connection) (request : Request) (wanted : Bool) :
    c.transact request wanted =
      match c.work request wanted with
      | .ok r => (.ok (.kept r), c.workUses request wanted ++ [.close])
      | .error e => c.undo request (c.workUses request wanted) e := by
  unfold transact workUses
  rcases execute_cases c request with ⟨-, hresult, -, hwork⟩ | ⟨-, -, e, he, hwork⟩
  · rw [hwork wanted]
    rcases hexecute : c.execute request with ⟨e | r, uses⟩
    · rw [hexecute] at hresult
      rw [← hresult]
      cases wanted <;> simp [bind, Except.bind]
    · rw [hexecute] at hresult
      rw [← hresult]
      cases wanted with
      | false => simp [bind, Except.bind, pure, Except.pure]
      | true => cases c.commit <;> simp [bind, Except.bind, pure, Except.pure]
  · rcases hexecute : c.execute request with ⟨r, uses⟩
    obtain rfl : r = .error e := by rw [← he, hexecute]
    rw [hwork wanted]
    cases wanted <;> simp

/-! ### The courses of a transaction -/

/-- One kind of use comes before the first of another kind. -/
def Before (first second : UseKind) (kinds : List UseKind) : Prop :=
  first ∈ kinds.takeWhile (· != second)

instance (first second : UseKind) (kinds : List UseKind) : Decidable (Before first second kinds) :=
  inferInstanceAs (Decidable (first ∈ kinds.takeWhile (· != second)))

/-- The uses of an open connection, by what of them there is: a cursor with a call over it, a commit
and a rollback. -/
def courseOf (cursor commit rollback : Bool) : List UseKind :=
  (if cursor then [.call, .closeCursor] else []) ++ (if commit then [.commit] else []) ++
    (if rollback then [.rollback] else []) ++ [.close]

theorem courseOf_ends : ∀ cursor commit rollback,
    (courseOf cursor commit rollback).count .close = 1 ∧
    (courseOf cursor commit rollback).getLast? = some .close ∧
    .opening ∉ courseOf cursor commit rollback := by
  decide

theorem courseOf_once : ∀ cursor commit rollback,
    (courseOf cursor commit rollback).count .call ≤ 1 ∧
    (courseOf cursor commit rollback).count .commit ≤ 1 ∧
    (courseOf cursor commit rollback).count .rollback ≤ 1 := by
  decide

theorem courseOf_cursor : ∀ commit rollback,
    (courseOf true commit rollback).count .closeCursor = 1 ∧
    ∀ settling ∈ [UseKind.commit, .rollback, .close],
      Before .closeCursor settling (courseOf true commit rollback) := by
  decide

theorem closeCursor_notMem_courseOf :
    ∀ commit rollback, .closeCursor ∉ courseOf false commit rollback := by
  decide

theorem commit_mem_courseOf : ∀ {cursor commit rollback},
    .commit ∈ courseOf cursor commit rollback ↔ commit = true := by
  decide

theorem rollback_mem_courseOf : ∀ {cursor commit rollback},
    .rollback ∈ courseOf cursor commit rollback ↔ rollback = true := by
  decide

theorem takeWhile_courseOf : ∀ rollback,
    (courseOf true true rollback).takeWhile (· != .commit) = [.call, .closeCursor] := by
  decide

theorem kinds_workUses (c : Connection) (request : Request) (wanted : Bool) :
    ∃ cursor commit : Bool,
      (c.workUses request wanted).map Use.kind =
        (if cursor then [.call, .closeCursor] else []) ++ (if commit then [.commit] else []) ∧
      (cursor = true ↔ c.MakesCursor request) ∧
      (commit = true ↔
        wanted = true ∧ c.MakesCursor request ∧ ∃ r, c.respond request = .ok r) := by
  unfold workUses
  rcases execute_cases c request with ⟨hcursor, hresult, huses, -⟩ | ⟨hcursor, huses, e, he, -⟩
  · refine ⟨true, wanted && (c.respond request).isOk, ?_, by simp [hcursor], ?_⟩
    · rw [hresult, List.map_append, huses]
      cases c.respond request <;> cases wanted <;> rfl
    · cases c.respond request <;> simp [hcursor, Except.isOk, Except.toBool]
  · refine ⟨false, false, ?_, by simp [hcursor], by simp [hcursor]⟩
    rw [he, huses]
    cases wanted <;> rfl

theorem kinds_undo (c : Connection) (request : Request) (uses : List Use) (e : Error) :
    ∃ rollback : Bool,
      (c.undo request uses e).2.map Use.kind =
        uses.map Use.kind ++ ((if rollback then [.rollback] else []) ++ [.close]) ∧
      (rollback = true ↔ c.hasRollback = true ∧ e.isInterrupt = false ∧
        ∃ name, request.qualifiedName = .ok name) := by
  unfold undo
  cases hinterrupt : e.isInterrupt with
  | true => exact ⟨false, by simp [Use.kind], by simp⟩
  | false =>
    cases hname : request.qualifiedName with
    | error other => exact ⟨false, by simp [Use.kind], by simp⟩
    | ok name =>
      refine ⟨c.hasRollback, ?_, by simp⟩
      cases c.hasRollback <;> simp [Use.kind]

/-- Work that is undone is not kept. -/
theorem undo_ne_kept (c : Connection) (request : Request) (uses : List Use) (e : Error)
    (r : Response) : (c.undo request uses e).1 ≠ .ok (.kept r) := by
  unfold undo
  split
  · simp
  · cases request.qualifiedName <;> simp

/-- **The uses of an open connection are one of few courses**, and what of a course there is depends
on how far the work comes. -/
theorem kinds_transact (c : Connection) (request : Request) (wanted : Bool) :
    ∃ cursor commit rollback : Bool,
      (c.transact request wanted).2.map Use.kind = courseOf cursor commit rollback ∧
      (cursor = true ↔ c.MakesCursor request) ∧
      (commit = true ↔
        wanted = true ∧ c.MakesCursor request ∧ ∃ r, c.respond request = .ok r) ∧
      (rollback = true ↔ c.hasRollback = true ∧ c.Raises request wanted ∧
        ∃ name, request.qualifiedName = .ok name) := by
  obtain ⟨cursor, commit, hkinds, hcursor, hcommit⟩ := kinds_workUses c request wanted
  rw [transact_eq]
  unfold courseOf Raises
  cases hwork : c.work request wanted with
  | ok r =>
    refine ⟨cursor, commit, false, ?_, hcursor, hcommit, by simp⟩
    simp [hkinds, Use.kind]
  | error e =>
    obtain ⟨rollback, hundo, hrollback⟩ := kinds_undo c request (c.workUses request wanted) e
    refine ⟨cursor, commit, rollback, ?_, hcursor, hcommit, ?_⟩
    · simp only [hundo, hkinds, List.append_assoc]
    · rw [hrollback]
      simp

/-! ### What is asked of the uses -/

/-- The uses of an open connection are in order. -/
structure Orderly (c : Connection) (request : Request) (wanted : Bool) (kinds : List UseKind) :
    Prop where
  /-- The connection is closed once. -/
  closed : kinds.count .close = 1
  /-- Nothing is done to a connection that is closed. -/
  closed_last : kinds.getLast? = some .close
  /-- The connection is not opened again. -/
  opened : .opening ∉ kinds
  /-- A cursor that was made is closed once. -/
  cursor : c.MakesCursor request → kinds.count .closeCursor = 1
  /-- A cursor that was made is closed before the transaction is settled. -/
  cursor_first : c.MakesCursor request →
    ∀ settling ∈ [UseKind.commit, .rollback, .close], Before .closeCursor settling kinds
  /-- No other cursor is closed. -/
  no_cursor : ¬ c.MakesCursor request → .closeCursor ∉ kinds
  /-- The procedure is called at most once. -/
  called : kinds.count .call ≤ 1
  /-- There is at most one commit. -/
  committed : kinds.count .commit ≤ 1
  /-- There is only a commit that is wanted, and behind a call that succeeded with everything behind
  it and whose cursor is closed. -/
  commit_last : .commit ∈ kinds → wanted = true ∧ c.MakesCursor request ∧ c.Responds request ∧
    kinds.takeWhile (· != .commit) = [.call, .closeCursor]
  /-- There is at most one rollback. -/
  rolledBack : kinds.count .rollback ≤ 1

/-- A connection that can be rolled back is rolled back if the work raises an error, be it that of
the commit, and only then. -/
def RollsBack (c : Connection) (request : Request) (wanted : Bool) (kinds : List UseKind) : Prop :=
  .rollback ∈ kinds ↔ c.hasRollback = true ∧ c.Raises request wanted

/-- The handler of a failure fails itself before it comes to the rollback. -/
def HandlerFails (c : Connection) (request : Request) (wanted : Bool) : Prop :=
  c.hasRollback = true ∧ c.Raises request wanted ∧ ∃ e, request.qualifiedName = .error e

/-- **A transaction uses its connection in order**, whatever fails on the way. -/
theorem orderly_transact (c : Connection) (request : Request) (wanted : Bool) :
    c.Orderly request wanted ((c.transact request wanted).2.map Use.kind) := by
  obtain ⟨cursor, commit, rollback, hkinds, hcursor, hcommit, -⟩ := kinds_transact c request wanted
  rw [hkinds]
  obtain ⟨hclosed, hlast, hopening⟩ := courseOf_ends cursor commit rollback
  obtain ⟨hcalled, hcommitted, hrolledBack⟩ := courseOf_once cursor commit rollback
  refine ⟨hclosed, hlast, hopening, ?_, ?_, ?_, hcalled, hcommitted, ?_, hrolledBack⟩
  · intro h
    rw [hcursor.2 h]
    exact (courseOf_cursor commit rollback).1
  · intro h
    rw [hcursor.2 h]
    exact (courseOf_cursor commit rollback).2
  · intro h
    obtain rfl : cursor = false := by rwa [← hcursor, Bool.not_eq_true] at h
    exact closeCursor_notMem_courseOf commit rollback
  · intro hmem
    obtain rfl := commit_mem_courseOf.1 hmem
    obtain ⟨hwanted, hmakes, r, hr⟩ := hcommit.1 rfl
    rw [hcursor.2 hmakes]
    exact ⟨hwanted, hmakes, responds_of_respond hr, takeWhile_courseOf rollback⟩

/-- **A failed transaction is rolled back**, unless the handler of the failure fails itself. -/
theorem rollsBack_transact_iff (c : Connection) (request : Request) (wanted : Bool) :
    c.RollsBack request wanted ((c.transact request wanted).2.map Use.kind) ↔
      ¬ c.HandlerFails request wanted := by
  obtain ⟨cursor, commit, rollback, hkinds, -, -, hrollback⟩ := kinds_transact c request wanted
  unfold RollsBack HandlerFails
  rw [hkinds, rollback_mem_courseOf, hrollback]
  cases request.qualifiedName with
  | error e => simp
  | ok name => simp

end Connection

/-! ### The whole task -/

/-- A world in which connections have been used more. -/
def World.after (w : World) (uses : List Use) : World :=
  { w with uses := w.uses ++ uses }

@[simp]
theorem World.after_nil (w : World) : w.after [] = w := by
  unfold World.after
  rw [List.append_nil]

@[simp]
theorem World.store_after (w : World) (uses : List Use) : (w.after uses).store = w.store := rfl

@[simp]
theorem Run.note_run (uses : List Use) (w : World) : Run.note uses w = (.ok (), w.after uses) := rfl

namespace Task

variable {t : Task} {env : Surroundings} {w v : World} {c : Connection} {request : Request}

/-- Whether a task wants its call committed. -/
def commits (t : Task) : Bool :=
  (t.settingOr "commit" (.bool true)).isTruthy

/-- A task comes to an open connection: its settings ask for a call, and the connection that they
name opens. -/
def Opens (t : Task) (env : Surroundings) (w : World) (request : Request) (c : Connection)
    (v : World) : Prop :=
  t.request w.store = .ok request ∧
    (∃ kind, databaseKind (t.setting "database_type") = .ok kind) ∧
    t.openConnection env w = (.ok c, v)

/-- A connection is opened at most once, and nothing else is done: a failure leaves one use at most,
and a connection that has opened exactly one. -/
def OpensOnce (x : Run Connection) (w : World) : Prop :=
  (∃ e, x w = (.error e, w)) ∨ ∃ r u, u.kind = .opening ∧ x w = (r, w.after [u])

theorem opensOnce_note {u : Use} (hu : u.kind = .opening) (c : Connection) (w : World) :
    OpensOnce (do Run.note [u]; Run.ofExcept c.opening; return c) w := by
  refine .inr ⟨c.opening.map fun _ => c, u, hu, ?_⟩
  rw [Run.bind_ok (Run.note_run _ _)]
  cases hopening : c.opening with
  | error e => rw [Run.bind_error (Run.ofExcept_run _ _)]; rfl
  | ok _ => rw [Run.bind_ok (Run.ofExcept_run _ _)]; rfl

theorem opensOnce_lift {α : Type} {r : Except Error α} {f : α → Run Connection} {w : World}
    (h : ∀ a, r = .ok a → OpensOnce (f a) w) : OpensOnce (do f (← r)) w := by
  cases hr : r with
  | error e => exact .inl ⟨e, Run.bind_error (Run.lift_run _ w)⟩
  | ok a =>
    unfold OpensOnce
    rw [Run.bind_ok (Run.lift_run _ w)]
    exact h a hr

theorem connect_opensOnce (env : Surroundings) (name : String) (w : World) :
    OpensOnce (env.connect name) w := by
  unfold Surroundings.connect
  split
  · exact opensOnce_lift fun names _ => .inl ⟨_, rfl⟩
  · exact opensOnce_note rfl _ w
  · refine opensOnce_lift fun c _ => ?_
    exact opensOnce_lift (w := w) fun options _ => opensOnce_note rfl c w

theorem openConnection_opensOnce (t : Task) (env : Surroundings) (w : World) :
    OpensOnce (t.openConnection env) w :=
  opensOnce_lift fun _ _ => opensOnce_lift fun name _ => connect_opensOnce env name w

/-- The world of a task whose connection has opened. -/
theorem Opens.exists_after (h : t.Opens env w request c v) :
    ∃ u, u.kind = .opening ∧ v = w.after [u] := by
  obtain ⟨-, -, hopen⟩ := h
  rcases openConnection_opensOnce t env w with ⟨e, herror⟩ | ⟨r, u, hu, hrun⟩
  · rw [hopen] at herror
    cases herror
  · rw [hopen] at hrun
    exact ⟨u, hu, (Prod.mk.inj hrun).2⟩

/-- What a task comes to without an open connection: a failure or an error. -/
theorem callProcedure_unopened (h : ¬ ∃ request c v, t.Opens env w request c v) :
    ∃ opening, (t.callProcedure env w).2 = w.after opening ∧ opening.length ≤ 1 ∧
      ∀ u ∈ opening, u.kind = .opening := by
  have hnone : ∃ opening : List Use, w = w.after opening ∧ opening.length ≤ 1 ∧
      ∀ u ∈ opening, u.kind = .opening := ⟨[], (World.after_nil w).symm, by simp, by simp⟩
  unfold callProcedure
  rw [Run.bind_ok (Run.store_run w)]
  cases hrequest : t.request w.store with
  | error e => dsimp only; split <;> exact hnone
  | ok request =>
    dsimp only
    cases hkind : databaseKind (t.setting "database_type") with
    | error e =>
      rw [Run.bind_error (Run.lift_run _ w)]
      exact hnone
    | ok kind =>
      rw [Run.bind_ok (Run.lift_run _ w), Run.bind_ok (Run.attempt_run _ w)]
      rcases openConnection_opensOnce t env w with ⟨e, hrun⟩ | ⟨r | c, u, hu, hrun⟩
      · rw [hrun]
        dsimp only
        split_ifs <;> exact hnone
      · rw [hrun]
        have hone : ∃ opening : List Use, w.after [u] = w.after opening ∧ opening.length ≤ 1 ∧
            ∀ u ∈ opening, u.kind = .opening := ⟨[u], rfl, by simp, by simpa using hu⟩
        dsimp only
        split_ifs <;> exact hone
      · exact absurd ⟨request, c, _, hrequest, ⟨kind, hkind⟩, hrun⟩ h

theorem callProcedure_opened (h : t.Opens env w request c v) :
    t.callProcedure env w = t.callOver c request v := by
  obtain ⟨hrequest, ⟨kind, hkind⟩, hopen⟩ := h
  unfold callProcedure
  rw [Run.bind_ok (Run.store_run w), hrequest]
  dsimp only
  rw [Run.bind_ok (by rw [Run.lift_run, hkind]), Run.bind_ok (Run.attempt_run _ w), hopen]

theorem callOver_run (t : Task) (c : Connection) (request : Request) (v : World) :
    t.callOver c request v =
      let closed := v.after (c.transact request t.commits).2
      match (c.transact request t.commits).1 with
      | .error e => (.error e, closed)
      | .ok (.undone reason) => (.ok (.failed reason), closed)
      | .ok (.kept r) =>
        match request.qualifiedName with
        | .error e => (.error e, closed)
        | .ok name => t.publish name r closed := by
  unfold callOver commits
  rcases c.transact request _ with ⟨settled, uses⟩
  dsimp only
  rw [Run.bind_ok (Run.note_run uses v)]
  rcases settled with e | r | reason
  · exact Run.bind_error (Run.lift_run _ _)
  · rw [Run.bind_ok (Run.lift_run _ _)]
    cases request.qualifiedName with
    | error e => exact Run.bind_error (Run.lift_run _ _)
    | ok name => exact Run.bind_ok (Run.lift_run _ _)
  · exact Run.bind_ok (Run.lift_run _ _)

/-- Publishing changes the variables alone, and fails where writing them does. -/
theorem publish_run (t : Task) (name : String) (r : Response) (w : World) :
    (t.publish name r w).2 = { w with store := (w.store.setKeys t.scope r.publication).2 } ∧
      (((w.store.setKeys t.scope r.publication).1 = .ok () ∧
          ∃ output, (t.publish name r w).1 = .ok (.done output none)) ∨
        ∃ e, (w.store.setKeys t.scope r.publication).1 = .error e ∧
          (t.publish name r w).1 = .error e) := by
  unfold publish
  rcases hkeys : w.store.setKeys t.scope r.publication with ⟨e | ⟨⟩, s⟩
  · have hset : Run.onStore (·.setKeys t.scope r.publication) w =
        (.error e, { w with store := s }) := by rw [Run.onStore, hkeys]
    rw [Run.bind_error hset]
    exact ⟨rfl, .inr ⟨e, rfl, rfl⟩⟩
  · have hset : Run.onStore (·.setKeys t.scope r.publication) w =
        (.ok (), { w with store := s }) := by rw [Run.onStore, hkeys]
    rw [Run.bind_ok hset]
    exact ⟨rfl, .inl ⟨rfl, _, rfl⟩⟩

/-- A task stores nothing, or publishes what came back from its call, from a world on. -/
def PublishesFrom (t : Task) (env : Surroundings) (w closed : World) : Prop :=
  (t.callProcedure env w).2 = closed ∨
    ∃ name r, t.callProcedure env w = t.publish name r closed

theorem PublishesFrom.uses_eq {closed : World} (h : t.PublishesFrom env w closed) :
    (t.callProcedure env w).2.uses = closed.uses := by
  rcases h with h | ⟨name, r, h⟩
  · rw [h]
  · rw [h, (publish_run t name r closed).1]

theorem publishesFrom_after (h : t.Opens env w request c v) :
    t.PublishesFrom env w (v.after (c.transact request t.commits).2) := by
  unfold PublishesFrom
  rw [callProcedure_opened h, callOver_run]
  rcases (c.transact request t.commits).1 with e | r | reason
  · exact .inl rfl
  · cases request.qualifiedName with
    | error e => exact .inl rfl
    | ok name => exact .inr ⟨name, r, rfl⟩
  · exact .inl rfl

/-- **How a task uses its connection.** A task that does not come to an open connection has opened
it in vain at most. Over an open connection everything is in order, and the variables are as they
were until it is closed. It is rolled back exactly when it should be, unless the handler of the
failure fails before it comes to that. -/
theorem callProcedure_discipline (t : Task) (env : Surroundings) (w : World) :
    ((¬ ∃ request c v, t.Opens env w request c v) →
      ∃ opening, (t.callProcedure env w).2 = w.after opening ∧ opening.length ≤ 1 ∧
        ∀ u ∈ opening, u.kind = .opening) ∧
    ∀ request c v, t.Opens env w request c v →
      ∃ opening uses, opening.kind = .opening ∧ v = w.after [opening] ∧
        (t.callProcedure env w).2.uses = v.uses ++ uses ∧
        t.PublishesFrom env w (v.after uses) ∧
        c.Orderly request t.commits (uses.map Use.kind) ∧
        (c.RollsBack request t.commits (uses.map Use.kind) ↔
          ¬ c.HandlerFails request t.commits) := by
  refine ⟨callProcedure_unopened, ?_⟩
  intro request c v h
  obtain ⟨opening, hopening, hv⟩ := h.exists_after
  have hpublishes := publishesFrom_after h
  exact ⟨opening, _, hopening, hv, hpublishes.uses_eq, hpublishes,
    c.orderly_transact request t.commits, c.rollsBack_transact_iff request t.commits⟩

/-! ### A schema that is a number -/

/-- The world of a run that has not begun, without variables and files. -/
def emptyWorld : World := .start (.empty .keepAsIs) ⟨[], []⟩

/-- A task with a number for the schema of its procedure. -/
def numberedSchema : Task :=
  .mk "a" "stored_procedure" .null .null .null .stop [(.str "procedure", .str "P"),
    (.str "connection", .str "main"), (.str "schema", .int 5)] []

/-- A connection that does all it is asked. -/
def willing : Connection :=
  ⟨.ok (), .ok (), .ok .null, [], true, .ok (), true⟩

/-- The connection alone. -/
def willingOnly : Surroundings :=
  ⟨⟨"", []⟩, [(.str "main", .ready willing)], []⟩

/-- The connection is closed without a rollback although the call has failed: the handler of the
failure looks for the name of the procedure as the call did. -/
theorem numberedSchema_not_rolledBack :
    ¬ ∀ request c v uses, numberedSchema.Opens willingOnly emptyWorld request c v →
      (numberedSchema.callProcedure willingOnly emptyWorld).2.uses = v.uses ++ uses →
        c.RollsBack request numberedSchema.commits (uses.map Use.kind) := by
  intro h
  have hopens : numberedSchema.Opens willingOnly emptyWorld ⟨"P", .int 5, []⟩ willing
      (emptyWorld.after [.connect "main"]) := ⟨rfl, ⟨none, rfl⟩, rfl⟩
  have hraises : willing.Raises ⟨"P", .int 5, []⟩ numberedSchema.commits :=
    ⟨.noMember "int" "strip", rfl, rfl⟩
  have hmem := (h _ _ _ [.close] hopens rfl).2 ⟨rfl, hraises⟩
  revert hmem
  decide

end Task

end Runbook
