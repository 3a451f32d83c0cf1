import Runbook.Condition
import Runbook.Proofs.NumberTexts

/-!
# Equal operands

Two operands are compared as numbers where both of them are numbers, and as they are otherwise. So
an operand has a comparand, which depends on this operand alone, and two operands are equal exactly
if their comparands are one and the same. The only exception is the number that is none: nothing is
equal to it, also not itself.

* `Comparand`, `Operator.comparand`: what an operand is compared by.
* `equal_iff`: **equality is that of comparands**, but for NaN.
* `equality_laws`: equality is symmetric and transitive, and **reflexive but for NaN**.
-/

namespace Runbook

open Runbook.Text

/-- What an operand is compared by. -/
inductive Comparand
  | absent
  | number (x : Binary64)
  | text (s : String)
  deriving DecidableEq, Repr

/-- A number with one zero in place of all zeros. -/
def Binary64.oneZero : Binary64 → Binary64
  | .finite _ 0 _ => .zero false
  | x => x

/-- What an operand is compared by: a text that is a number by this number, another by itself. -/
def Operator.comparand : Option String → Comparand
  | none => .absent
  | some s =>
    match Binary64.read? s with
    | some x => .number x.oneZero
    | none => .text s

section Comparands

variable {a b : Option String} {s t : String} {x y : Binary64}

theorem oneZero_eq_nan_iff : x.oneZero = .nan ↔ x = .nan := by
  cases x with
  | nan => exact Iff.rfl
  | infinity negative => exact Iff.rfl
  | finite negative mantissa exponent => cases mantissa <;> simp [Binary64.oneZero, Binary64.zero]

/-- **Numbers are equal** if they are one number, whatever the sign of a zero, and not NaN. -/
theorem same_iff : x.same y = true ↔ x.oneZero = y.oneZero ∧ x ≠ .nan := by
  cases x with
  | nan => simp [Binary64.same]
  | infinity negative =>
    cases y with
    | finite other mantissa exponent =>
      cases mantissa <;> simp [Binary64.same, Binary64.oneZero, Binary64.zero]
    | _ => simp [Binary64.same, Binary64.oneZero]
  | finite negative mantissa exponent =>
    cases y with
    | finite other mantissa' exponent' =>
      -- zeros are equal whatever else they have, and a zero is no other number
      cases mantissa <;> cases mantissa' <;>
        simp [Binary64.same, Binary64.oneZero, Binary64.zero]
    | _ => cases mantissa <;> simp [Binary64.same, Binary64.oneZero, Binary64.zero]

theorem comparand_number (h : Binary64.read? s = some x) :
    Operator.comparand (some s) = .number x.oneZero := by
  rw [Operator.comparand, h]

theorem comparand_text (h : Binary64.read? s = none) : Operator.comparand (some s) = .text s := by
  rw [Operator.comparand, h]

theorem comparand_ne_absent (s : String) : Operator.comparand (some s) ≠ .absent := by
  cases hs : Binary64.read? s with
  | some x =>
    rw [comparand_number hs]
    exact Comparand.noConfusion
  | none =>
    rw [comparand_text hs]
    exact Comparand.noConfusion

/-- **Operands are equal** exactly if they have one comparand, unless it is NaN. -/
theorem equal_iff : Operator.equal a b = true ↔
    Operator.comparand a = Operator.comparand b ∧ Operator.comparand a ≠ .number .nan := by
  have habsent : Operator.comparand none = .absent := rfl
  cases a with
  | none =>
    cases b with
    | none => simp [Operator.equal, habsent]
    | some t => simp [Operator.equal, habsent, (comparand_ne_absent t).symm]
  | some s =>
    cases b with
    | none => simp [Operator.equal, habsent, comparand_ne_absent s]
    | some t =>
      -- a number and a text that is none are not the same text
      have hne : Binary64.read? s ≠ Binary64.read? t → s ≠ t := fun h hst => h (congrArg _ hst)
      rw [Operator.equal]
      cases hs : Binary64.read? s with
      | some x =>
        rw [comparand_number hs]
        cases ht : Binary64.read? t with
        | some y => simp [comparand_number ht, same_iff, oneZero_eq_nan_iff]
        | none => simp [comparand_text ht, hne (by rw [hs, ht]; simp)]
      | none =>
        rw [comparand_text hs]
        cases ht : Binary64.read? t with
        | some y => simp [comparand_number ht, hne (by rw [hs, ht]; simp)]
        | none => simp [comparand_text ht]

/-- The operands whose comparand is NaN. -/
theorem comparand_eq_nan_iff :
    Operator.comparand a = .number .nan ↔ ∃ s, a = some s ∧ NamesNan s := by
  cases a with
  | none => simp [Operator.comparand]
  | some s =>
    have hnan : Operator.comparand (some s) = .number .nan ↔ Binary64.read? s = some .nan := by
      cases hs : Binary64.read? s with
      | some x => simp [comparand_number hs, oneZero_eq_nan_iff]
      | none => simp [comparand_text hs]
    rw [hnan, Binary64.read?_eq_nan_iff]
    simp

end Comparands

/-- **The laws of equality**: it is symmetric and transitive, and an operand is equal to itself
exactly if it is no name of NaN. -/
theorem equality_laws (a b c : Option String) :
    (Operator.equals.holds a a = true ↔ ¬ ∃ s, a = some s ∧ NamesNan s) ∧
    (Operator.equals.holds a b = true ↔ Operator.equals.holds b a = true) ∧
    (Operator.equals.holds a b = true → Operator.equals.holds b c = true →
      Operator.equals.holds a c = true) := by
  simp only [Operator.holds, equal_iff, ← comparand_eq_nan_iff]
  refine ⟨by simp, ⟨?_, ?_⟩, ?_⟩
  · rintro ⟨hsame, hnan⟩
    exact ⟨hsame.symm, hsame ▸ hnan⟩
  · rintro ⟨hsame, hnan⟩
    exact ⟨hsame.symm, hsame ▸ hnan⟩
  · rintro ⟨hab, hnan⟩ ⟨hbc, -⟩
    exact ⟨hab.trans hbc, hnan⟩

/-- Three texts of one number: equal in a row, and so the first to the last. -/
theorem equality_laws_two :
    Operator.equals.holds (some " 2.50 ") (some "+25e-1") = true ∧
      Operator.equals.holds (some "+25e-1") (some "2_50.0E-2") = true ∧
      Operator.equals.holds (some " 2.50 ") (some "2_50.0E-2") = true := by
  have hfirst : Operator.equals.holds (some " 2.50 ") (some "+25e-1") = true := by decide +kernel
  have hsecond : Operator.equals.holds (some "+25e-1") (some "2_50.0E-2") = true := by
    decide +kernel
  exact ⟨hfirst, hsecond, (equality_laws _ _ _).2.2 hfirst hsecond⟩

/-- **NaN is not equal to itself.** -/
theorem nan_not_equal : ¬ ∀ a, Operator.equals.holds a a = true := by
  intro h
  have hnan : Operator.equals.holds (some "nan") (some "nan") = false := by decide +kernel
  rw [h] at hnan
  cases hnan

end Runbook
