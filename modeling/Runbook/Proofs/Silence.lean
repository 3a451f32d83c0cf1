import Runbook.Proofs.Running
import Runbook.Run.Flow

/-!
# Computations that tell nothing

What a task of its own does is silent: it tells the user nothing and counts no task. Only the
running of tasks tells and counts, and so only a task that runs others does while it is doing.

* `Run.Silent`: a computation that leaves what was told and counted as it is.
* `Silent.bind`, `Silent.attempt`: silent computations are made of silent ones.
* `execute_silent`: **a task that runs no others is silent while it is doing.**
-/

namespace Runbook

open Runbook.Display

/-- A world in which as much has been told and counted as in another. -/
structure World.SameTold (w v : World) : Prop where
  notices : v.notices = w.notices
  completed : v.completed = w.completed
  failed : v.failed = w.failed
  skipped : v.skipped = w.skipped

theorem World.SameTold.refl (w : World) : w.SameTold w := ⟨rfl, rfl, rfl, rfl⟩

theorem World.SameTold.trans {u v w : World} (h : u.SameTold v) (h' : v.SameTold w) :
    u.SameTold w :=
  ⟨h'.notices.trans h.notices, h'.completed.trans h.completed, h'.failed.trans h.failed,
    h'.skipped.trans h.skipped⟩

namespace Run

variable {α β : Type} {x : Run α} {f : α → Run β}

/-- **A silent computation** tells nothing and counts nothing, whether it succeeds or fails. -/
def Silent (x : Run α) : Prop :=
  ∀ w : World, w.SameTold (x w).2

namespace Silent

theorem bind (hx : x.Silent) (hf : ∀ a, (f a).Silent) : (x >>= f).Silent :=
  bind_rel World.SameTold .trans hx hf

theorem attempt (hx : x.Silent) : x.attempt.Silent := fun w => hx w

protected theorem pure (a : α) : (pure a : Run α).Silent := fun w => .refl w

theorem fail (e : Error) : (Run.fail e : Run α).Silent := fun w => .refl w

theorem lift (r : Except Error α) : (liftM r : Run α).Silent := fun w => .refl w

theorem ofExcept (r : Except Error α) : (Run.ofExcept r).Silent := fun w => .refl w

theorem store : Run.store.Silent := fun w => .refl w

theorem files : Run.files.Silent := fun w => .refl w

theorem onStore (g : Store → Except Error α × Store) : (Run.onStore g).Silent :=
  fun _ => ⟨rfl, rfl, rfl, rfl⟩

theorem write (g : Store → Except Error Store) : (Run.write g).Silent := .onStore _

theorem note (uses : List Use) : (Run.note uses).Silent := fun _ => ⟨rfl, rfl, rfl, rfl⟩

theorem writeFile (l : Location) (c : FileContent) : (Run.writeFile l c).Silent := by
  intro w
  rw [Run.writeFile]
  split
  · exact ⟨rfl, rfl, rfl, rfl⟩
  · exact .refl w

end Silent

end Run

open Run

namespace Task

variable (t : Task) (env : Surroundings)

theorem storeFor_silent (name : String) (v : Value) : (storeFor t name v).Silent := by
  unfold storeFor
  split
  · exact .bind (.write _) fun _ => .pure _
  · exact .bind (.write _) fun _ => .bind (.lift _) fun _ => .pure _

theorem assign_silent : t.assign.Silent := by
  unfold assign
  refine .bind (.lift _) fun _ => .bind (.lift _) fun _ => .bind (.lift _) fun _ =>
    .bind .store fun _ => .bind (.lift _) fun plain => ?_
  split
  · exact .bind (storeFor_silent t _ _) fun _ => .pure _
  · split
    · exact .bind (.lift _) fun _ => .pure _
    · exact .fail _

theorem maintain_silent : (t.maintain env).Silent := by
  unfold maintain
  refine .bind (.lift _) fun action => ?_
  split
  · unfold removeNames
    exact .bind (.lift _) fun _ => .bind (.lift _) fun _ => .bind (.onStore _) fun _ => .pure _
  split
  · unfold clearAll
    exact .bind .store fun _ => .bind (.onStore _) fun _ => .pure _
  · unfold exportAll
    refine .bind .store fun _ => .bind (.lift _) fun _ => .bind (.lift _) fun _ =>
      .bind (.lift _) fun _ => .bind .store fun _ => .bind (.attempt (.writeFile _ _)) fun r => ?_
    split
    · split
      · exact .pure _
      · exact .fail _
    · split
      · exact .fail _
      · exact .pure _

theorem branch_silent : t.branch.Silent := by
  unfold branch
  refine .bind .store fun s => ?_
  split
  · exact .pure _
  · exact .fail _
  · exact .bind (.write _) fun _ => .bind (.lift _) fun _ => .pure _

theorem readRecords_silent (settings : Records.Settings) : (t.readRecords settings).Silent := by
  unfold readRecords
  refine .bind .files fun _ => .bind (.lift _) fun rows => ?_
  split
  · exact .bind (.lift _) fun _ => .bind (.write _) fun _ => .pure _
  · exact .pure _

theorem readFile_silent : (t.readFile env).Silent := by
  unfold readFile
  refine .bind .store fun _ => .bind (.lift _) fun _ => .bind (.lift _) fun _ =>
    .bind (.lift _) fun _ => .bind (.lift _) fun _ => .bind (.lift _) fun _ =>
      .bind (.attempt (readRecords_silent t _)) fun rows => ?_
  split
  · exact .pure _
  · split
    · exact .pure _
    · exact .fail _
  · exact .bind (.write _) fun _ => .bind (.lift _) fun _ => .pure _

theorem connect_silent (name : String) : (env.connect name).Silent := by
  unfold Surroundings.connect
  split
  · exact .bind (.lift _) fun _ => .fail _
  · exact .bind (.note _) fun _ => .bind (.ofExcept _) fun _ => .pure _
  · exact .bind (.lift _) fun _ => .bind .store fun _ => .bind (.lift _) fun _ =>
      .bind (.note _) fun _ => .bind (.ofExcept _) fun _ => .pure _

theorem callOver_silent (c : Connection) (request : Request) : (t.callOver c request).Silent := by
  unfold callOver
  refine .bind (.note _) fun _ => .bind (.lift _) fun settled => ?_
  split
  · exact .pure _
  · unfold publish
    exact .bind (.lift _) fun _ => .bind (.onStore _) fun _ => .pure _

theorem callProcedure_silent : (t.callProcedure env).Silent := by
  unfold callProcedure
  refine .bind .store fun s => ?_
  split
  · split
    · exact .pure _
    · exact .fail _
  refine .bind (.lift _) fun _ => .bind (.attempt ?_) fun connection => ?_
  · unfold openConnection
    exact .bind (.lift _) fun _ => .bind (.lift _) fun _ => connect_silent env _
  split
  · split
    · exact .fail _
    · split
      · exact .pure _
      · exact .pure _
  · exact callOver_silent t _ _

/-- **A task that runs no others is silent while it is doing.** -/
theorem execute_silent {workers : Value} (nested : Option (Run (List NestedResult)))
    (h : TaskKind.ofName t.type ≠ .ok .fanOut) : (t.execute env workers nested).Silent := by
  unfold execute
  cases hkind : TaskKind.ofName t.type with
  | error e => exact fun w => .refl w
  | ok kind =>
    intro w
    rw [Run.bind_lift rfl]
    cases kind with
    | assign => exact assign_silent t w
    | maintain => exact maintain_silent t env w
    | branch => exact branch_silent t w
    | readFile => exact readFile_silent t env w
    | callProcedure => exact callProcedure_silent t env w
    | fanOut => exact absurd hkind h

end Task

end Runbook
