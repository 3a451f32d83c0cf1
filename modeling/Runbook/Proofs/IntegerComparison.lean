import Runbook.Proofs.Equality
import Runbook.Proofs.JsonWriting
import Runbook.Proofs.ReadRoutes
import Runbook.Proofs.Rounding

/-!
# Integers as operands

An integer in a variable, or its decimal text, is compared as a binary64 number. So two operands are
equal exactly if their integers are rounded to one integer, or out of the range of finite numbers on
the same side of zero. Below `2 ^ 53` this is equality; above it neighbours are equal too. An
integer with too many digits for a text can be no operand, while a text may have any length.

* `Stores`, `Store.Reads`: integers in variables, and the operands that read them.
* `equal_integers`: **equality of integers**, as that of rounded ones.
* `integers_compared`: **conditions on integers**, and what they fail with.
-/

namespace Runbook

open Runbook.Text Runbook.Path Runbook.Binary64

/-- What an integer is stored as: the integer itself or its decimal text. -/
inductive Stores (n : Int) : Value → Prop
  | integer : Stores n (.int n)
  | text : Stores n (.str (intText n))

/-- An operand that reads a value: the placeholder of an expression that comes to it, with blanks
around it or without. -/
def Store.Reads (s : Store) (operand : String) (v : Value) : Prop :=
  ∃ e p, IsBraceless e ∧ parse e = .ok p ∧ Pads operand (wrapped e.toList) ∧ s.get (.str e) = .ok v

section Comparison

variable {s : Store} {m n : Int} {v : Value} {operand : String}

theorem oneZero_ofInt (n : Int) : (ofInt n).oneZero = ofInt n := by
  by_cases hn : n = 0
  · subst hn
    rfl
  · obtain ⟨mantissa, place, hlow, -, -, hmake⟩ := ofRatio_canonical (n := n.natAbs) (by omega)
    rw [ofInt, hmake]
    by_cases hfar : 1024 ≤ place
    · rw [if_pos hfar]
      rfl
    · rw [if_neg hfar]
      obtain ⟨k, rfl⟩ : ∃ k, mantissa = k + 1 := ⟨mantissa - 1, by omega⟩
      rfl

theorem ofInt_ne_nan (n : Int) : ofInt n ≠ .nan := by
  by_cases hn : n = 0
  · subst hn
    exact Binary64.noConfusion
  · obtain ⟨mantissa, place, -, -, -, hmake⟩ := ofRatio_canonical (n := n.natAbs) (by omega)
    rw [ofInt, hmake]
    split <;> exact Binary64.noConfusion

/-- **Integers are equal as operands** exactly if they become one number. -/
theorem equal_integers : Operator.equal (some (intText m)) (some (intText n)) = true ↔
    Coincide (rounded m) (rounded n) := by
  rw [equal_iff, comparand_number (read?_intText m), comparand_number (read?_intText n),
    oneZero_ofInt, oneZero_ofInt, ← ofInt_eq_iff]
  simp [ofInt_ne_nan]

/-- An operand that reads an integer is its decimal text. -/
theorem Stores.operand_eq (hv : Stores n v) (hread : s.Reads operand v)
    (htext : v = .int n → n.natAbs < tooLongInteger) :
    s.operand (some operand) = .ok (some (intText n)) := by
  obtain ⟨e, p, he, hp, hpads, hget⟩ := hread
  rw [operand_spelled he hp hpads, hget]
  cases hv with
  | integer =>
    show (integerText n).map some = _
    rw [integerText, if_pos (htext rfl)]
    rfl
  | text => rfl

/-- An operand that reads an integer of too many digits fails. -/
theorem operand_tooLong (hread : s.Reads operand (.int n)) (hlong : tooLongInteger ≤ n.natAbs) :
    s.operand (some operand) = .error (.value (.integerTooLong none)) := by
  obtain ⟨e, p, he, hp, hpads, hget⟩ := hread
  rw [operand_spelled he hp hpads, hget]
  show (integerText n).map some = _
  rw [integerText, if_neg (Nat.not_lt.2 hlong)]
  rfl

end Comparison

/-- **Conditions on integers.** For integers that are stored as such or as their decimal texts, with
no more digits than integers are written with where they are stored as such, "equals" holds exactly
if both of them are rounded to one integer or out of range on the same side of zero; where one of
them is below `2 ^ 53`, this is exactly if they are equal. "Not equal" holds exactly where "equals"
does not. With a stored integer of more digits, every condition fails. -/
theorem integers_compared {s : Store} {m n : Int} {v w : Value} {first second : String}
    (hv : Stores m v) (hw : Stores n w) (hfirst : s.Reads first v) (hsecond : s.Reads second w) :
    ((v = .int m → m.natAbs < tooLongInteger) → (w = .int n → n.natAbs < tooLongInteger) →
      ∃ equal : Bool,
        (∀ operator, Operator.ofName? (lower (trim operator)) = some .equals →
          Condition.holds ⟨some first, operator, some second⟩ s = .ok equal) ∧
        (∀ operator, Operator.ofName? (lower (trim operator)) = some .notEqual →
          Condition.holds ⟨some first, operator, some second⟩ s = .ok (!equal)) ∧
        (∃ x y, RoundsTo m x ∧ RoundsTo n y ∧ (equal = true ↔ Coincide x y)) ∧
        (m.natAbs < 2 ^ 53 ∨ n.natAbs < 2 ^ 53 → (equal = true ↔ m = n))) ∧
    ((v = .int m ∧ tooLongInteger ≤ m.natAbs ∨ w = .int n ∧ tooLongInteger ≤ n.natAbs) →
      ∀ operator, Condition.holds ⟨some first, operator, some second⟩ s =
        .error (.value (.integerTooLong none))) := by
  constructor
  · intro hm hn
    have hleft := hv.operand_eq hfirst hm
    have hright := hw.operand_eq hsecond hn
    refine ⟨Operator.equal (some (intText m)) (some (intText n)), fun operator hop => ?_,
      fun operator hop => ?_, ⟨rounded m, rounded n, roundsTo_iff.2 rfl, roundsTo_iff.2 rfl,
        equal_integers⟩, fun hsmall => equal_integers.trans (coincide_iff_of_small hsmall)⟩
    · rw [Condition.holds, hleft, hright, hop]
      rfl
    · rw [Condition.holds, hleft, hright, hop]
      rfl
  · intro hlong operator
    by_cases hm : v = .int m ∧ tooLongInteger ≤ m.natAbs
    · obtain ⟨rfl, hm⟩ := hm
      rw [Condition.holds, operand_tooLong hfirst hm]
      rfl
    · obtain ⟨rfl, hn⟩ := hlong.resolve_left hm
      have hleft := hv.operand_eq hfirst fun hint => Nat.lt_of_not_le fun h => hm ⟨hint, h⟩
      rw [Condition.holds, hleft, operand_tooLong hsecond hn]
      rfl

/-- Two neighbours behind `2 ^ 53`, one of them as a text. -/
def neighbours : Store :=
  ⟨[(("A", "m"), .int (2 ^ 53 + 1)), (("A", "n"), .str (intText (2 ^ 53)))], .keepAsIs⟩

theorem neighbours_read :
    neighbours.Reads "$\x7bA.m\x7d" (.int (2 ^ 53 + 1)) ∧
      neighbours.Reads " $\x7bA.n\x7d" (.str (intText (2 ^ 53))) :=
  ⟨⟨"A.m", ⟨"A", "m", []⟩, ⟨by decide, by decide⟩, by decide,
    ⟨[], [], List.forall_mem_nil _, List.forall_mem_nil _, by decide⟩, rfl⟩,
   ⟨"A.n", ⟨"A", "n", []⟩, ⟨by decide, by decide⟩, by decide,
    ⟨[' '], [], List.forall_mem_singleton.2 (by decide), List.forall_mem_nil _, by decide⟩, rfl⟩⟩

/-- An integer with one digit too many for a text. -/
def overlong : Store := ⟨[(("A", "m"), .int tooLongInteger)], .keepAsIs⟩

theorem overlong_read : overlong.Reads "$\x7bA.m\x7d" (.int tooLongInteger) :=
  ⟨"A.m", ⟨"A", "m", []⟩, ⟨by decide, by decide⟩, by decide,
    ⟨[], [], List.forall_mem_nil _, List.forall_mem_nil _, by decide⟩, rfl⟩

/-- Two neighbours that are rounded to one integer: "equals" holds and "not equal" does not. An
integer that is too long is not even equal to itself. -/
theorem integers_compared_neighbours :
    Condition.holds ⟨some "$\x7bA.m\x7d", "equals", some " $\x7bA.n\x7d"⟩ neighbours = .ok true ∧
      Condition.holds ⟨some "$\x7bA.m\x7d", " NotEqual", some " $\x7bA.n\x7d"⟩ neighbours =
        .ok false ∧
      Condition.holds ⟨some "$\x7bA.m\x7d", "equals", some "$\x7bA.m\x7d"⟩ overlong =
        .error (.value (.integerTooLong none)) := by
  have hshort : (2 ^ 53 + 1 : Int).natAbs < tooLongInteger :=
    Json.lt_tooLongInteger (k := 16) (by decide) (by decide)
  obtain ⟨equal, hequals, hnotEqual, ⟨x, y, hx, hy, hsame⟩, -⟩ :=
    (integers_compared .integer .text neighbours_read.1 neighbours_read.2).1 (fun _ => hshort)
      (fun h => by cases h)
  have hequal : equal = true := by
    rw [hsame, roundsTo_iff.1 hx, roundsTo_iff.1 hy]
    exact .inl (by decide +kernel)
  subst hequal
  have hlong : tooLongInteger ≤ (tooLongInteger : Int).natAbs :=
    Nat.le_of_eq (Int.natAbs_natCast _).symm
  exact ⟨hequals _ (by decide), hnotEqual _ (by decide),
    (integers_compared .integer .integer overlong_read overlong_read).2 (.inl ⟨rfl, hlong⟩) _⟩

/-- **"Equals" is not exact on integers**: it holds of two neighbours behind `2 ^ 53`. -/
theorem neighbours_equal : ¬ ∀ (s : Store) (m n : Int) (v w : Value) (first second : String),
    Stores m v → Stores n w → s.Reads first v → s.Reads second w →
      (Condition.holds ⟨some first, "equals", some second⟩ s = .ok true ↔ m = n) := by
  intro h
  have hexact := h neighbours _ _ _ _ _ _ .integer .text neighbours_read.1 neighbours_read.2
  have hholds : Condition.holds ⟨some "$\x7bA.m\x7d", "equals", some " $\x7bA.n\x7d"⟩ neighbours =
      .ok true := by
    decide +kernel
  exact absurd (hexact.1 hholds) (by decide)

end Runbook
