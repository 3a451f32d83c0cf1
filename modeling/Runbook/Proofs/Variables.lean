import Mathlib.Data.List.Nodup
import Mathlib.Tactic.Common
import Runbook.Store

/-!
# Writing and removing variables

The list of variables as a map that remembers the order of first writes: what looking up finds
after a write or a removal, and which base variables are listed in which order.

* `lookup?_put`, `lookup?_erase`: what is found.
* `bases_put`, `bases_erase`: a written variable keeps its place or comes to the end, a removed one
  leaves the others in order.
* `lookup?_isSome`: found are exactly the listed ones.
-/

namespace Runbook.Variables

/-- The base variables in the order of their first write. -/
def bases (vs : Variables) : List Base := vs.map (·.1)

variable {vs : Variables} {b c : Base} {v : Value}

theorem lookup?_nil (b : Base) : lookup? [] b = none := rfl

theorem lookup?_cons (e : Base × Value) (vs : Variables) (b : Base) :
    lookup? (e :: vs) b = if e.1 = b then some e.2 else lookup? vs b := by
  by_cases h : e.1 = b <;> simp [lookup?, h]

theorem bases_nil : bases [] = [] := rfl

theorem bases_cons (e : Base × Value) (vs : Variables) : bases (e :: vs) = e.1 :: bases vs := rfl

/-- **What is found after a write**: the written value, and every other one as before. -/
theorem lookup?_put (vs : Variables) (b : Base) (v : Value) (c : Base) :
    (vs.put b v).lookup? c = if c = b then some v else vs.lookup? c := by
  induction vs with
  | nil =>
    rw [put, lookup?_cons]
    simp only [eq_comm]
  | cons e vs ih =>
    obtain ⟨d, old⟩ := e
    rw [put]
    by_cases hd : d = b
    · -- written in its place
      subst hd
      simp only [beq_self_eq_true, if_true, lookup?_cons, eq_comm]
      split <;> rfl
    · simp only [beq_eq_false_iff_ne.2 hd, Bool.false_eq_true, if_false, lookup?_cons, ih]
      by_cases hc : d = c
      · have hcb : c ≠ b := by rintro rfl; exact hd hc
        simp [hc, hcb]
      · simp [hc]

/-- **What is found after a removal**: everything but the removed variable. -/
theorem lookup?_erase (vs : Variables) (b c : Base) :
    (vs.erase b).lookup? c = if c = b then none else vs.lookup? c := by
  induction vs with
  | nil => simp [erase, lookup?_nil]
  | cons e vs ih =>
    by_cases he : e.1 = b
    · have herase : erase (e :: vs) b = erase vs b := by simp [erase, he]
      rw [herase, ih, lookup?_cons]
      by_cases hc : c = b
      · simp [hc]
      · have : e.1 ≠ c := by rw [he]; exact fun h => hc h.symm
        simp [hc, this]
    · have herase : erase (e :: vs) b = e :: erase vs b := by simp [erase, he]
      rw [herase, lookup?_cons, ih, lookup?_cons]
      by_cases hc : e.1 = c
      · have : c ≠ b := by rintro rfl; exact he hc
        simp [hc, this]
      · simp [hc]

/-- Found are exactly the listed variables. -/
theorem lookup?_isSome : (vs.lookup? b).isSome = true ↔ b ∈ vs.bases := by
  induction vs with
  | nil => simp [lookup?_nil, bases_nil]
  | cons e vs ih =>
    rw [lookup?_cons, bases_cons, List.mem_cons]
    by_cases he : e.1 = b
    · simp [he]
    · simp [he, Ne.symm he, ih]

/-- **A written variable keeps its place**, or comes to the end if it was absent. -/
theorem bases_put (vs : Variables) (b : Base) (v : Value) :
    (vs.put b v).bases = if b ∈ vs.bases then vs.bases else vs.bases ++ [b] := by
  induction vs with
  | nil => simp [put, bases]
  | cons e vs ih =>
    obtain ⟨d, old⟩ := e
    rw [put]
    by_cases hd : d = b
    · simp [hd, bases_cons]
    · simp only [beq_eq_false_iff_ne.2 hd, Bool.false_eq_true, if_false, bases_cons, ih,
        List.mem_cons, Ne.symm hd, false_or]
      split <;> rfl

/-- **Removing** leaves the other variables in their order. -/
theorem bases_erase (vs : Variables) (b : Base) : (vs.erase b).bases = vs.bases.filter (· ≠ b) := by
  induction vs with
  | nil => rfl
  | cons e vs ih =>
    by_cases he : e.1 = b
    · have herase : erase (e :: vs) b = erase vs b := by simp [erase, he]
      rw [herase, ih, bases_cons, List.filter_cons_of_neg (by simp [he])]
    · have herase : erase (e :: vs) b = e :: erase vs b := by simp [erase, he]
      rw [herase, bases_cons, ih, bases_cons, List.filter_cons_of_pos (by simp [he])]

/-- Writing keeps the listed variables different from each other. -/
theorem nodup_put (h : vs.bases.Nodup) : (vs.put b v).bases.Nodup := by
  rw [bases_put]
  split
  · exact h
  · rename_i hb
    exact List.nodup_append.2 ⟨h, List.nodup_singleton b, fun x hx y hy hxy => by
      rw [List.mem_singleton] at hy
      exact hb (hy ▸ hxy ▸ hx)⟩

theorem nodup_erase (h : vs.bases.Nodup) : (vs.erase b).bases.Nodup := by
  rw [bases_erase]
  exact h.filter _

end Runbook.Variables
