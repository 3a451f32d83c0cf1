import Mathlib.Data.List.Induction
import Mathlib.Tactic.Common
import Mathlib.Tactic.IntervalCases
import Runbook.Text.Blank
import Runbook.Text.Digit

/-!
# Decimal digits of numbers

Writing a number in decimal digits and reading the digits back.

* `digitsOfNat_step`: the digits of a number end in that of its remainder by ten.
* `natOfDigits_digitsOfNat`: reading the digits of a number gives the number, zeros in front or not.
* `length_digitsOfNat_le`: no row of digits for a number is shorter than its own digits.
-/

namespace Runbook.Text

theorem toNat_digitChar {n : Nat} (hn : n < 10) : (digitChar n).toNat = 48 + n := by
  interval_cases n <;> rfl

theorem isAsciiDigit_digitChar {n : Nat} (hn : n < 10) : isAsciiDigit (digitChar n) = true := by
  interval_cases n <;> rfl

theorem isBlank_digit {c : Char} (h : isAsciiDigit c = true) : isBlank c = false := by
  simp only [isAsciiDigit, Bool.and_eq_true, decide_eq_true_eq] at h
  have hlow : 48 ≤ c.toNat := h.1
  have hhigh : c.toNat ≤ 57 := h.2
  simp only [isBlank, Bool.or_eq_false_iff, Bool.and_eq_false_iff, decide_eq_false_iff_not,
    beq_eq_false_iff_ne]
  omega

theorem digitsOnto_append (n : Nat) (rest : List Char) :
    digitsOnto n rest = digitsOfNat n ++ rest := by
  induction n using Nat.strongRecOn generalizing rest with
  | ind n ih =>
    rw [digitsOfNat]
    conv_lhs => rw [digitsOnto]
    conv_rhs => rw [digitsOnto]
    split
    · rfl
    · rw [ih (n / 10) (by omega), ih (n / 10) (by omega) [digitChar (n % 10)]]
      simp

/-- The digits of a number below ten. -/
theorem digitsOfNat_small {n : Nat} (hn : n < 10) : digitsOfNat n = [digitChar n] := by
  rw [digitsOfNat, digitsOnto, if_pos hn]

/-- The digits of a number from ten on end in that of its remainder by ten. -/
theorem digitsOfNat_step {n : Nat} (hn : ¬ n < 10) :
    digitsOfNat n = digitsOfNat (n / 10) ++ [digitChar (n % 10)] := by
  rw [digitsOfNat, digitsOnto, if_neg hn, digitsOnto_append]

theorem toList_natText (n : Nat) : (natText n).toList = digitsOfNat n := String.toList_ofList

theorem toList_intText_ofNat (n : Nat) : (intText (.ofNat n)).toList = digitsOfNat n :=
  toList_natText n

theorem toList_intText_negSucc (n : Nat) :
    (intText (.negSucc n)).toList = '-' :: digitsOfNat (n + 1) := by
  rw [intText, String.toList_append, toList_natText]
  rfl

theorem digitsOfNat_ne_nil (n : Nat) : digitsOfNat n ≠ [] := by
  by_cases hn : n < 10
  · rw [digitsOfNat_small hn]; simp
  · rw [digitsOfNat_step hn]; simp

/-- The digits of a number are ASCII digits. -/
theorem isAsciiDigit_of_mem_digitsOfNat {n : Nat} {c : Char} (h : c ∈ digitsOfNat n) :
    isAsciiDigit c = true := by
  induction n using Nat.strongRecOn with
  | ind n ih =>
    by_cases hn : n < 10
    · rw [digitsOfNat_small hn, List.mem_singleton] at h
      rw [h]; exact isAsciiDigit_digitChar hn
    · rw [digitsOfNat_step hn, List.mem_append, List.mem_singleton] at h
      rcases h with h | rfl
      · exact ih (n / 10) (by omega) h
      · exact isAsciiDigit_digitChar (by omega)

theorem natOfDigits_snoc (cs : List Char) (c : Char) :
    natOfDigits (cs ++ [c]) = 10 * natOfDigits cs + (c.toNat - 48) := by
  rw [natOfDigits, List.foldl_append]
  rfl

/-- **Reading the digits of a number** gives the number. -/
theorem natOfDigits_digitsOfNat (n : Nat) : natOfDigits (digitsOfNat n) = n := by
  induction n using Nat.strongRecOn with
  | ind n ih =>
    by_cases hn : n < 10
    · rw [digitsOfNat_small hn, ← List.nil_append [digitChar n], natOfDigits_snoc,
        toNat_digitChar hn]
      simp [natOfDigits]
    · rw [digitsOfNat_step hn, natOfDigits_snoc, ih (n / 10) (by omega),
        toNat_digitChar (by omega)]
      omega

/-- Zeros in front do not change a number. -/
theorem natOfDigits_zeros (zeros : Nat) (cs : List Char) :
    natOfDigits (List.replicate zeros '0' ++ cs) = natOfDigits cs := by
  induction zeros with
  | zero => rfl
  | succ zeros ih =>
    rw [← ih, List.replicate_succ, List.cons_append]
    rfl

/-- A row of digits is a number below a power of ten. -/
theorem natOfDigits_lt {cs : List Char} (h : ∀ c ∈ cs, isAsciiDigit c = true) :
    natOfDigits cs < 10 ^ cs.length := by
  induction cs using List.reverseRecOn with
  | nil => decide
  | append_singleton cs c ih =>
    have hc : isAsciiDigit c = true := h c (by simp)
    have hlt := ih fun d hd => h d (by simp [hd])
    have hle : c.toNat - 48 ≤ 9 := by
      simp only [isAsciiDigit, Bool.and_eq_true, decide_eq_true_eq] at hc
      have : '9'.toNat = 57 := rfl
      omega
    rw [natOfDigits_snoc, List.length_append, List.length_singleton, Nat.pow_succ]
    omega

/-- A number below a power of ten has at most so many digits. -/
theorem length_digitsOfNat_of_lt {n k : Nat} (h : n < 10 ^ (k + 1)) :
    (digitsOfNat n).length ≤ k + 1 := by
  induction k generalizing n with
  | zero =>
    rw [digitsOfNat_small (by simpa using h)]
    simp
  | succ k ih =>
    by_cases hn : n < 10
    · rw [digitsOfNat_small hn]; simp
    · -- one digit less for a tenth of the number
      have hdiv : n / 10 < 10 ^ (k + 1) := by
        rw [Nat.pow_succ] at h
        omega
      rw [digitsOfNat_step hn, List.length_append, List.length_singleton]
      have := ih hdiv
      omega

/-- **The digits of a number are the shortest row of digits** for it. -/
theorem length_digitsOfNat_le {cs : List Char} (hne : cs ≠ [])
    (h : ∀ c ∈ cs, isAsciiDigit c = true) :
    (digitsOfNat (natOfDigits cs)).length ≤ cs.length := by
  have hpos : 0 < cs.length := List.length_pos_iff.2 hne
  obtain ⟨k, hk⟩ : ∃ k, cs.length = k + 1 := ⟨cs.length - 1, by omega⟩
  have hlt := natOfDigits_lt h
  rw [hk] at hlt ⊢
  exact length_digitsOfNat_of_lt hlt

end Runbook.Text
