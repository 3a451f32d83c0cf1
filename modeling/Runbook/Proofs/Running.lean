import Mathlib.Tactic.Common
import Runbook.Run.World

/-!
# Taking computations apart

A computation on a world is a chain of smaller ones. What it gives in the end comes from the last
of them, at the world that the others left behind.

* `bind_ok`, `bind_error`: one computation after another that has succeeded or failed.
* `Run.Ensures`: whatever world a computation starts in, its result, if there is one, has a
  property.
-/

namespace Runbook

/-- **Both of two results are there** if one after the other is. -/
theorem exists_of_bind_ok {α β : Type} {x : Except Error α} {f : α → Except Error β} {b : β}
    (h : (x >>= f) = .ok b) : ∃ a, x = .ok a ∧ f a = .ok b := by
  cases x with
  | error e => cases h
  | ok a => exact ⟨a, rfl, h⟩

/-- What is made of a result is there if the result is. -/
theorem exists_of_map_ok {α β : Type} {x : Except Error α} {f : α → β} {b : β}
    (h : x.map f = .ok b) : ∃ a, x = .ok a ∧ f a = b := by
  cases x with
  | error e => cases h
  | ok a => exact ⟨a, rfl, Except.ok.inj h⟩

namespace Run

variable {α β : Type} {x : Run α} {f : α → Run β} {a : α} {e : Error} {w w' : World}

theorem bind_ok (h : x w = (.ok a, w')) : (x >>= f) w = f a w' := by
  show Run.bind x f w = f a w'
  rw [Run.bind, h]

theorem bind_error (h : x w = (.error e, w')) : (x >>= f) w = (.error e, w') := by
  show Run.bind x f w = (.error e, w')
  rw [Run.bind, h]

/-- **Both of two computations have succeeded** if one after the other has. -/
theorem exists_of_bind_ok {b : β} (h : (x >>= f) w = (.ok b, w')) :
    ∃ a v, x w = (.ok a, v) ∧ f a v = (.ok b, w') := by
  rcases hx : x w with ⟨e | a, v⟩
  · rw [bind_error hx] at h
    cases h
  · rw [bind_ok hx] at h
    exact ⟨a, v, rfl, h⟩

@[simp]
theorem pure_run (a : α) (w : World) : (pure a : Run α) w = (.ok a, w) := rfl

@[simp]
theorem fail_run (e : Error) (w : World) : (fail e : Run α) w = (.error e, w) := rfl

@[simp]
theorem store_run (w : World) : Run.store w = (.ok w.store, w) := rfl

@[simp]
theorem lift_run (r : Except Error α) (w : World) : (liftM r : Run α) w = (r, w) := rfl

@[simp]
theorem ofExcept_run (r : Except Error α) (w : World) : ofExcept r w = (r, w) := rfl

@[simp]
theorem attempt_run (x : Run α) (w : World) : x.attempt w = (.ok (x w).1, (x w).2) := rfl

/-- **What each of two computations does to the world, both do one after the other**, if it adds
up. -/
theorem bind_rel (rel : World → World → Prop)
    (htrans : ∀ {u v w : World}, rel u v → rel v w → rel u w) (hx : ∀ w, rel w (x w).2)
    (hf : ∀ a w, rel w (f a w).2) (w : World) : rel w ((x >>= f) w).2 := by
  have hfirst := hx w
  rcases hrun : x w with ⟨e | a, v⟩
  · rw [hrun] at hfirst
    rw [bind_error hrun]
    exact hfirst
  · rw [hrun] at hfirst
    rw [bind_ok hrun]
    exact htrans hfirst (hf a v)

/-- A result that is there is gone on with. -/
theorem bind_lift {r : Except Error α} (h : r = .ok a) (f : α → Run β) (w : World) :
    ((liftM r : Run α) >>= f) w = f a w :=
  bind_ok (by rw [lift_run, h])

/-- What is gone on with is there, if there is a result in the end. -/
theorem exists_of_bind_lift_ok {r : Except Error α} {b : β}
    (h : ((liftM r : Run α) >>= f) w = (.ok b, w')) : ∃ a, r = .ok a ∧ f a w = (.ok b, w') := by
  cases r with
  | error e =>
    rw [bind_error (lift_run (.error e) w)] at h
    cases h
  | ok a => exact ⟨a, rfl, h⟩

/-- Results one behind the other are taken up one by one. -/
theorem lift_bind {γ : Type} (r : Except Error α) (g : α → Except Error β) (h : β → Run γ) :
    ((liftM (r >>= g) : Run β) >>= h) =
      ((liftM r : Run α) >>= fun a => (liftM (g a) : Run β) >>= h) := by
  cases r <;> rfl

theorem lift_pure_bind (a : α) (h : α → Run β) :
    ((liftM (Pure.pure a : Except Error α) : Run α) >>= h) = h a := rfl

/-- Whatever world a computation starts in, its result has a property, if there is one. -/
def Ensures (x : Run α) (p : α → Prop) : Prop :=
  ∀ w a w', x w = (.ok a, w') → p a

namespace Ensures

variable {p q : α → Prop}

theorem imp (h : x.Ensures p) (hpq : ∀ a, p a → q a) : x.Ensures q :=
  fun w a w' hx => hpq a (h w a w' hx)

/-- A result is that of the last computation. -/
theorem bind {p : β → Prop} (h : ∀ a, (f a).Ensures p) : (x >>= f).Ensures p := by
  intro w b w' hx
  obtain ⟨a, v, -, hf⟩ := exists_of_bind_ok hx
  exact h a v b w' hf

/-- What the first computation ensures may be used for the last one. -/
theorem bind_of {p : β → Prop} (hx : x.Ensures q) (h : ∀ a, q a → (f a).Ensures p) :
    (x >>= f).Ensures p := by
  intro w b w' hrun
  obtain ⟨a, v, ha, hf⟩ := exists_of_bind_ok hrun
  exact h a (hx w a v ha) v b w' hf

protected theorem pure (h : p a) : (pure a : Run α).Ensures p := by
  intro w b w' hb
  rw [pure_run] at hb
  cases hb
  exact h

theorem fail : (fail e : Run α).Ensures p := by
  intro w b w' hb
  rw [fail_run] at hb
  cases hb

theorem lift {r : Except Error α} (h : ∀ a, r = .ok a → p a) : (liftM r : Run α).Ensures p := by
  intro w b w' hb
  rw [lift_run] at hb
  exact h b (Prod.mk.inj hb).1

/-- The result of an attempt that has succeeded is that of the computation. -/
theorem attempt (h : x.Ensures p) : x.attempt.Ensures fun r => ∀ a, r = .ok a → p a := by
  intro w r w' hr a ha
  rcases hx : x w with ⟨s, v⟩
  rw [attempt_run, hx] at hr
  obtain rfl : s = r := Except.ok.inj (Prod.mk.inj hr).1
  exact h w a v (by rw [hx, ha])

end Ensures

end Run

end Runbook
