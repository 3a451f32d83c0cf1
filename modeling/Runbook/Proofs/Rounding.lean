import Mathlib.Tactic.Common
import Mathlib.Tactic.Ring
import Runbook.Number.Binary64

/-!
# Integers as binary64 numbers

A binary64 number has 53 binary digits, so from `2 ^ 53` on an integer is rounded to the nearest one
with so many digits and zeros behind them, ties to an even last digit; from `2 ^ 1024` on what comes
out is an infinity. Two integers become one number exactly if they are rounded to one integer, or
both of them to infinity on the same side of zero.

* `IsShort`, `RoundsTo`: **rounding to 53 binary digits**, said without computing it.
* `rounded`, `roundsTo_iff`: the rounded integer, the only one.
* `ofRatio_canonical`: the number that a positive integer becomes.
* `ofInt_eq_iff`: **the integers that become one number**.
* `coincide_iff_of_small`: an integer below `2 ^ 53` shares its number with no other.
-/

namespace Runbook.Binary64

/-- An integer of at most 53 binary digits, not counting zeros at its end. -/
def IsShort (x : Int) : Prop :=
  ∃ mantissa exponent : Nat, mantissa < 2 ^ 53 ∧ x.natAbs = mantissa * 2 ^ exponent

/-- **Rounding to 53 binary digits**: to the nearest integer of so many digits, and of two at the
same distance to the one whose last digit is even. -/
structure RoundsTo (n x : Int) : Prop where
  short : IsShort x
  nearest : ∀ y, IsShort y → (n - x).natAbs ≤ (n - y).natAbs
  even : ∀ y, IsShort y → y ≠ x → (n - y).natAbs = (n - x).natAbs →
    ∃ mantissa exponent : Nat, 2 ^ 52 ≤ mantissa ∧ mantissa < 2 ^ 53 ∧ mantissa % 2 = 0 ∧
      x.natAbs = mantissa * 2 ^ exponent

/-- Rounded integers that become one number: they are one integer, or both of them are out of the
range of finite numbers, on the same side of zero. -/
def Coincide (x y : Int) : Prop :=
  x = y ∨ 2 ^ 1024 ≤ x ∧ 2 ^ 1024 ≤ y ∨ x ≤ -2 ^ 1024 ∧ y ≤ -2 ^ 1024

/-- The count of binary digits that are rounded off. -/
def excess (n : Nat) : Nat := n.log2 - 52

/-- The first 53 binary digits of a number, rounded by the others. -/
def digits53 (n : Nat) : Nat := roundQuotient n (2 ^ excess n)

/-- A number cut behind its first 53 binary digits. -/
def cut (n : Nat) : Nat := n / 2 ^ excess n * 2 ^ excess n

/-- A number rounded to 53 binary digits. -/
def roundedNat (n : Nat) : Nat := digits53 n * 2 ^ excess n

/-- An integer rounded to 53 binary digits. -/
def rounded (n : Int) : Int := if n < 0 then -(roundedNat n.natAbs : Int) else roundedNat n.natAbs

/-! ### Quotients -/

/-- **The quotient nearest to a ratio**: down to the half, up from it, and at the half to even. -/
theorem roundQuotient_cases (n d : Nat) :
    (2 * (n % d) < d ∧ roundQuotient n d = n / d) ∨
    (d < 2 * (n % d) ∧ roundQuotient n d = n / d + 1) ∨
    (2 * (n % d) = d ∧ roundQuotient n d = n / d + n / d % 2) := by
  unfold roundQuotient
  simp only
  split
  · exact .inl ⟨‹_›, rfl⟩
  · split
    · exact .inr (.inl ⟨‹_›, rfl⟩)
    · exact .inr (.inr ⟨by omega, rfl⟩)

theorem roundQuotient_one (n : Nat) : roundQuotient n 1 = n := by
  have hcases := roundQuotient_cases n 1
  rw [Nat.mod_one, Nat.div_one] at hcases
  omega

theorem roundQuotient_bounds (n d : Nat) :
    n / d ≤ roundQuotient n d ∧ roundQuotient n d ≤ n / d + 1 := by
  have hcases := roundQuotient_cases n d
  omega

/-! ### The first 53 digits -/

section Digits

variable {n : Nat}

theorem pow_split {a b c : Nat} (h : a = b + c) : 2 ^ a = 2 ^ b * 2 ^ c := by
  rw [h, Nat.pow_add]

/-- A number below `2 ^ 53` has no digits to round off. -/
theorem excess_of_lt (h : n < 2 ^ 53) : excess n = 0 := by
  by_cases hn : n = 0
  · subst hn
    rfl
  · have hlog : n.log2 < 53 := (Nat.log2_lt hn).2 h
    unfold excess
    omega

theorem roundedNat_of_lt (h : n < 2 ^ 53) : roundedNat n = n := by
  rw [roundedNat, digits53, excess_of_lt h, Nat.pow_zero, roundQuotient_one, Nat.mul_one]

/-- Cut behind its first 53 digits, a number is one of 53 digits. -/
theorem div_excess (h : 2 ^ 52 ≤ n) :
    2 ^ 52 ≤ n / 2 ^ excess n ∧ n / 2 ^ excess n < 2 ^ 53 := by
  have hn : n ≠ 0 := by
    have hpos := Nat.two_pow_pos 52
    omega
  have hlog : 52 ≤ n.log2 := (Nat.le_log2 hn).2 h
  have hlow : 2 ^ n.log2 ≤ n := Nat.log2_self_le hn
  have hhigh : n < 2 ^ (n.log2 + 1) := Nat.lt_log2_self
  have hpos : 0 < 2 ^ excess n := Nat.two_pow_pos _
  constructor
  · rw [Nat.le_div_iff_mul_le hpos, ← Nat.pow_add]
    have hexp : 52 + excess n = n.log2 := by unfold excess; omega
    rwa [hexp]
  · rw [Nat.div_lt_iff_lt_mul hpos, ← Nat.pow_add]
    have hexp : 53 + excess n = n.log2 + 1 := by unfold excess; omega
    rwa [hexp]

theorem digits53_bounds (h : 2 ^ 52 ≤ n) : 2 ^ 52 ≤ digits53 n ∧ digits53 n ≤ 2 ^ 53 := by
  have hcut := div_excess h
  have hround := roundQuotient_bounds n (2 ^ excess n)
  unfold digits53
  omega

/-- **A number is rounded** to where it is cut or to the next number with as many zeros, whichever
is nearer, and half way between them to the one with an even last digit. -/
theorem roundedNat_cases (n : Nat) :
    cut n ≤ n ∧ n < cut n + 2 ^ excess n ∧
      (2 * (n - cut n) < 2 ^ excess n ∧ roundedNat n = cut n ∨
        2 ^ excess n < 2 * (n - cut n) ∧ roundedNat n = cut n + 2 ^ excess n ∨
        2 * (n - cut n) = 2 ^ excess n ∧ digits53 n % 2 = 0 ∧
          (n / 2 ^ excess n % 2 = 0 ∧ roundedNat n = cut n ∨
            n / 2 ^ excess n % 2 = 1 ∧ roundedNat n = cut n + 2 ^ excess n)) := by
  have hsplit : cut n + n % 2 ^ excess n = n := Nat.div_add_mod' _ _
  have hrest : n % 2 ^ excess n < 2 ^ excess n := Nat.mod_lt _ (Nat.two_pow_pos _)
  have hdown : digits53 n = n / 2 ^ excess n → roundedNat n = cut n := by
    intro hdigits
    rw [roundedNat, hdigits, cut]
  have hup : digits53 n = n / 2 ^ excess n + 1 → roundedNat n = cut n + 2 ^ excess n := by
    intro hdigits
    rw [roundedNat, hdigits, cut, Nat.succ_mul]
  have hlow : cut n ≤ n := by omega
  have hhigh : n < cut n + 2 ^ excess n := by omega
  refine ⟨hlow, hhigh, ?_⟩
  rcases roundQuotient_cases n (2 ^ excess n) with ⟨hr, hq⟩ | ⟨hr, hq⟩ | ⟨hr, hq⟩
  · exact .inl ⟨by omega, hdown hq⟩
  · exact .inr (.inl ⟨by omega, hup hq⟩)
  · have heven : digits53 n % 2 = 0 := by
      rw [digits53, hq]
      omega
    refine .inr (.inr ⟨by omega, heven, ?_⟩)
    rcases Nat.mod_two_eq_zero_or_one (n / 2 ^ excess n) with hbit | hbit
    · rw [hbit, Nat.add_zero] at hq
      exact .inl ⟨hbit, hdown hq⟩
    · rw [hbit] at hq
      exact .inr ⟨hbit, hup hq⟩

/-- From `2 ^ 53` on, what is rounded stays there. -/
theorem le_roundedNat (h : 2 ^ 53 ≤ n) : 2 ^ 53 ≤ roundedNat n := by
  have hn : n ≠ 0 := by
    have hpos := Nat.two_pow_pos 53
    omega
  have hlog : 53 ≤ n.log2 := (Nat.le_log2 hn).2 h
  have hdigits := (digits53_bounds (n := n) (by omega)).1
  have hexcess : 2 ≤ 2 ^ excess n := by
    calc 2 = 2 ^ 1 := rfl
      _ ≤ 2 ^ excess n := Nat.pow_le_pow_right (by decide) (by unfold excess; omega)
  calc 2 ^ 53 = 2 ^ 52 * 2 := by decide
    _ ≤ digits53 n * 2 ^ excess n := Nat.mul_le_mul hdigits hexcess

/-- Of two products of 53 digits and a power, the one with the greater power is greater. -/
theorem place_le_of_eq {a b j k : Nat} (hb : 2 ^ 52 ≤ b) (ha : a < 2 ^ 53)
    (h : a * 2 ^ j = b * 2 ^ k) : k ≤ j := by
  by_contra hlt
  have hsplit : 2 ^ k = 2 ^ (k - j) * 2 ^ j := pow_split (by omega)
  have hfactor : a = b * 2 ^ (k - j) := by
    rw [hsplit, ← Nat.mul_assoc] at h
    exact Nat.eq_of_mul_eq_mul_right (Nat.two_pow_pos j) h
  have htwo : 2 ^ 1 ≤ 2 ^ (k - j) := Nat.pow_le_pow_right (by decide) (by omega)
  have hlarge := Nat.mul_le_mul hb htwo
  omega

/-- The first 53 digits and their place are determined by the value. -/
theorem digits_unique {a b j k : Nat} (ha : 2 ^ 52 ≤ a ∧ a < 2 ^ 53) (hb : 2 ^ 52 ≤ b ∧ b < 2 ^ 53)
    (h : a * 2 ^ j = b * 2 ^ k) : a = b ∧ j = k := by
  have hplace : j = k :=
    Nat.le_antisymm (place_le_of_eq ha.1 hb.2 h.symm) (place_le_of_eq hb.1 ha.2 h)
  subst hplace
  exact ⟨Nat.eq_of_mul_eq_mul_right (Nat.two_pow_pos j) h, rfl⟩

end Digits

/-! ### The nearest integer of 53 digits -/

section Nearest

variable {n : Nat} {x y : Int}

theorem IsShort.neg (h : IsShort x) : IsShort (-x) := by
  rwa [IsShort, Int.natAbs_neg]

theorem RoundsTo.neg {m : Int} (h : RoundsTo m x) : RoundsTo (-m) (-x) where
  short := h.short.neg
  nearest y hy := by
    have hnear := h.nearest (-y) hy.neg
    omega
  even y hy hne hsame := by
    rw [Int.natAbs_neg]
    exact h.even (-y) hy.neg (by omega) (by omega)

/-- **Between two neighbours of 53 digits** no other integer is short. -/
theorem IsShort.outside (hn : 2 ^ 52 ≤ n) (hy : IsShort y) :
    y ≤ cut n ∨ (cut n + 2 ^ excess n : Nat) ≤ y := by
  obtain ⟨mantissa, exponent, hmantissa, hvalue⟩ := hy
  have hlow := (div_excess hn).1
  rcases Nat.lt_or_ge exponent (excess n) with hexp | hexp
  · -- fewer zeros than the neighbours have: below all numbers of as many digits
    left
    have hzeros : 2 * 2 ^ exponent ≤ 2 ^ excess n := by
      rw [Nat.mul_comm, ← Nat.pow_succ]
      exact Nat.pow_le_pow_right (by decide) hexp
    have hbelow : y.natAbs ≤ cut n := by
      calc y.natAbs = mantissa * 2 ^ exponent := hvalue
        _ ≤ 2 ^ 53 * 2 ^ exponent := Nat.mul_le_mul_right _ (by omega)
        _ = 2 ^ 52 * (2 * 2 ^ exponent) := by ring
        _ ≤ n / 2 ^ excess n * 2 ^ excess n := Nat.mul_le_mul hlow hzeros
    omega
  · -- as many zeros: one of the multiples, and there is none between neighbours
    have hmultiple : y.natAbs = mantissa * 2 ^ (exponent - excess n) * 2 ^ excess n := by
      rw [hvalue, pow_split (Nat.sub_add_cancel hexp).symm, Nat.mul_assoc]
    generalize mantissa * 2 ^ (exponent - excess n) = factor at hmultiple
    rcases Nat.lt_or_ge (n / 2 ^ excess n) factor with hfactor | hfactor
    · have habove : cut n + 2 ^ excess n ≤ factor * 2 ^ excess n := by
        rw [cut, ← Nat.succ_mul]
        exact Nat.mul_le_mul_right _ hfactor
      omega
    · have hbelow : factor * 2 ^ excess n ≤ cut n := Nat.mul_le_mul_right _ hfactor
      omega

theorem isShort_carried {mantissa exponent : Nat} (h : mantissa ≤ 2 ^ 53) :
    IsShort ((mantissa * 2 ^ exponent : Nat) : Int) := by
  rcases Nat.lt_or_eq_of_le h with hlt | rfl
  · exact ⟨mantissa, exponent, hlt, Int.natAbs_natCast _⟩
  · refine ⟨2 ^ 52, exponent + 1, by decide, ?_⟩
    rw [Int.natAbs_natCast]
    ring

/-- What is rounded to an even last digit has one, also with the digit carried. -/
theorem even_carried {mantissa exponent : Nat} (hlow : 2 ^ 52 ≤ mantissa)
    (hhigh : mantissa ≤ 2 ^ 53) (heven : mantissa % 2 = 0) :
    ∃ m e : Nat, 2 ^ 52 ≤ m ∧ m < 2 ^ 53 ∧ m % 2 = 0 ∧
      ((mantissa * 2 ^ exponent : Nat) : Int).natAbs = m * 2 ^ e := by
  rcases Nat.lt_or_eq_of_le hhigh with hlt | rfl
  · exact ⟨mantissa, exponent, hlow, hlt, heven, Int.natAbs_natCast _⟩
  · refine ⟨2 ^ 52, exponent + 1, Nat.le_refl _, by decide, by decide, ?_⟩
    rw [Int.natAbs_natCast]
    ring

/-- A natural number is rounded to the nearest of 53 digits. -/
theorem roundsTo_roundedNat (n : Nat) : RoundsTo n (roundedNat n) := by
  rcases Nat.lt_or_ge n (2 ^ 53) with hsmall | hlarge
  · rw [roundedNat_of_lt hsmall]
    refine ⟨⟨n, 0, hsmall, by simp⟩, fun y _ => by omega, fun y _ hne hsame => ?_⟩
    exact absurd hsame (by omega)
  · have hn : 2 ^ 52 ≤ n := by omega
    have hdigits := digits53_bounds hn
    obtain ⟨hlow, hhigh, hcases⟩ := roundedNat_cases n
    refine ⟨isShort_carried hdigits.2, fun y hy => ?_, fun y hy hne hsame => ?_⟩
    · have houtside := hy.outside hn
      rcases hcases with ⟨hr, hx⟩ | ⟨hr, hx⟩ | ⟨hr, -, ⟨-, hx⟩ | ⟨-, hx⟩⟩
      · rw [hx]
        omega
      · rw [hx]
        omega
      · rw [hx]
        omega
      · rw [hx]
        omega
    · have houtside := hy.outside hn
      rcases hcases with ⟨hr, hx⟩ | ⟨hr, hx⟩ | ⟨-, hbit, -⟩
      · rw [hx] at hne hsame
        omega
      · rw [hx] at hne hsame
        omega
      · -- the only ties are at the half, and there the digit is made even
        exact even_carried hdigits.1 hdigits.2 hbit

/-- Of two neighbours at the same distance one alone has an even last digit. -/
theorem RoundsTo.eq_roundedNat (h : RoundsTo n x) : x = roundedNat n := by
  have hrounded := roundsTo_roundedNat n
  have hsame : (n - roundedNat n : Int).natAbs = (n - x).natAbs :=
    Nat.le_antisymm (hrounded.nearest x h.short) (h.nearest _ hrounded.short)
  rcases Nat.lt_or_ge n (2 ^ 53) with hsmall | hlarge
  · rw [roundedNat_of_lt hsmall] at hsame ⊢
    omega
  · by_contra hne
    have hn : 2 ^ 52 ≤ n := by omega
    have hdigits := div_excess hn
    have houtside := h.short.outside hn
    obtain ⟨mantissa, exponent, hmlow, hmhigh, heven, hvalue⟩ :=
      h.even _ hrounded.short (Ne.symm hne) hsame
    obtain ⟨hlow, hhigh, hcases⟩ := roundedNat_cases n
    -- the other neighbour ends in an odd digit, and its digits are its own
    have hodd : ∀ digits, digits % 2 = 1 → digits < 2 ^ 53 → 2 ^ 52 ≤ digits →
        x.natAbs ≠ digits * 2 ^ excess n := by
      intro digits hbit hless hmore hx
      have hdigit := (digits_unique ⟨hmlow, hmhigh⟩ ⟨hmore, hless⟩ (hvalue.symm.trans hx)).1
      omega
    have hdown := hodd (n / 2 ^ excess n)
    have hup := hodd (n / 2 ^ excess n + 1)
    rw [← cut] at hdown
    rw [Nat.succ_mul, ← cut] at hup
    rcases hcases with ⟨hr, hx⟩ | ⟨hr, hx⟩ | ⟨hr, -, ⟨hbit, hx⟩ | ⟨hbit, hx⟩⟩
    · rw [hx] at hne hsame
      omega
    · rw [hx] at hne hsame
      omega
    · rw [hx] at hne hsame
      omega
    · rw [hx] at hne hsame
      omega

theorem rounded_neg (n : Int) : rounded (-n) = -rounded n := by
  have hzero : roundedNat 0 = 0 := roundedNat_of_lt (by decide)
  unfold rounded
  rw [Int.natAbs_neg]
  rcases Int.lt_trichotomy n 0 with hneg | rfl | hpos
  · rw [if_neg (by omega), if_pos hneg, Int.neg_neg]
  · simp [hzero]
  · rw [if_pos (by omega), if_neg (by omega)]

theorem rounded_natCast (n : Nat) : rounded n = roundedNat n := if_neg (by omega)

/-- **An integer is rounded** to the nearest of 53 digits, ties to an even last digit. -/
theorem roundsTo_rounded (n : Int) : RoundsTo n (rounded n) := by
  obtain ⟨m, rfl | rfl⟩ := Int.eq_nat_or_neg n
  · rw [rounded_natCast]
    exact roundsTo_roundedNat m
  · rw [rounded_neg, rounded_natCast]
    exact (roundsTo_roundedNat m).neg

/-- **There is one integer to round to.** -/
theorem roundsTo_iff {k : Int} : RoundsTo k x ↔ x = rounded k := by
  refine ⟨fun h => ?_, fun h => h ▸ roundsTo_rounded k⟩
  obtain ⟨m, rfl | rfl⟩ := Int.eq_nat_or_neg k
  · rw [rounded_natCast]
    exact h.eq_roundedNat
  · have hpos : RoundsTo m (-x) := by
      have hneg := h.neg
      rwa [Int.neg_neg] at hneg
    rw [rounded_neg, rounded_natCast, ← hpos.eq_roundedNat, Int.neg_neg]

end Nearest

/-! ### The number of an integer -/

section Numbers

variable {m n : Nat} {s t : Bool}

theorem binaryOrder_one (hn : n ≠ 0) : binaryOrder n 1 = n.log2 := by
  have hone : Nat.log2 1 = 0 := by decide
  have hlow : 2 ^ n.log2 ≤ n := Nat.log2_self_le hn
  have hreach : reachesPower 2 n 1 (n.log2 - Nat.log2 1 : Int) = true := by
    rw [hone]
    unfold reachesPower scaleRatio
    simp only [Int.natCast_zero, Int.sub_zero, Int.neg_neg, Int.toNat_natCast, decide_eq_true_eq]
    split
    · rename_i hzero
      have hlog : n.log2 = 0 := by omega
      rw [hlog]
      simp only [Int.natCast_zero, Int.neg_zero, Int.toNat_zero]
      show 1 ≤ n * 2 ^ 0
      omega
    · show 1 * 2 ^ n.log2 ≤ n
      omega
  unfold binaryOrder
  simp only
  rw [if_pos hreach, hone, Int.natCast_zero, Int.sub_zero]

/-- The first 53 digits of a number in front of the point, with zeros where it has fewer. -/
theorem scaled_digits (hn : n ≠ 0) :
    let r := scaleRatio 2 n 1 (-(n.log2 - 52 : Int))
    2 ^ 52 ≤ roundQuotient r.1 r.2 ∧ roundQuotient r.1 r.2 ≤ 2 ^ 53 ∧
      roundQuotient r.1 r.2 * 2 ^ n.log2 = roundedNat n * 2 ^ 52 := by
  have hlow : 2 ^ n.log2 ≤ n := Nat.log2_self_le hn
  have hhigh : n < 2 ^ (n.log2 + 1) := Nat.lt_log2_self
  rcases Nat.lt_or_ge 52 n.log2 with hlog | hlog
  · have hlarge : 2 ^ 52 ≤ n := (Nat.le_log2 hn).1 (by omega)
    have hscale : scaleRatio 2 n 1 (-(n.log2 - 52 : Int)) = (n, 2 ^ excess n) := by
      have hexp : (-(-(n.log2 - 52 : Int))).toNat = excess n := by unfold excess; omega
      rw [scaleRatio, if_neg (by omega), hexp, Nat.one_mul]
      rfl
    have hdigits := digits53_bounds hlarge
    have hsplit : 2 ^ n.log2 = 2 ^ excess n * 2 ^ 52 := pow_split (by unfold excess; omega)
    rw [hscale]
    exact ⟨hdigits.1, hdigits.2, by rw [hsplit, ← Nat.mul_assoc]; rfl⟩
  · have hsmall : n < 2 ^ 53 :=
      Nat.lt_of_lt_of_le hhigh (Nat.pow_le_pow_right (by decide) (by omega))
    have hscale : scaleRatio 2 n 1 (-(n.log2 - 52 : Int)) = (n * 2 ^ (52 - n.log2), 1) := by
      have hexp : (-(n.log2 - 52 : Int)).toNat = 52 - n.log2 := by omega
      rw [scaleRatio, if_pos (by omega), hexp]
      rfl
    have hshift : 2 ^ 52 = 2 ^ n.log2 * 2 ^ (52 - n.log2) := pow_split (by omega)
    have hnext : 2 ^ 53 = 2 ^ (n.log2 + 1) * 2 ^ (52 - n.log2) := pow_split (by omega)
    simp only [hscale, roundQuotient_one, roundedNat_of_lt hsmall]
    refine ⟨?_, ?_, ?_⟩
    · rw [hshift]
      exact Nat.mul_le_mul_right _ hlow
    · rw [hnext]
      exact Nat.mul_le_mul_right _ (Nat.le_of_lt hhigh)
    · rw [hshift]
      ring

/-- **The number of a positive integer**: its first 53 digits, rounded, and the place of the first
one; from `2 ^ 1024` on it is an infinity. -/
theorem ofRatio_canonical (hn : n ≠ 0) : ∃ mantissa place : Nat,
    2 ^ 52 ≤ mantissa ∧ mantissa < 2 ^ 53 ∧ mantissa * 2 ^ place = roundedNat n * 2 ^ 52 ∧
      ∀ s, ofRatio s n 1 =
        if 1024 ≤ place then .infinity s else .finite s mantissa (place - 52) := by
  obtain ⟨hlow, hhigh, hvalue⟩ := scaled_digits hn
  have hexp : max (binaryOrder n 1 - 52) minExponent = (n.log2 - 52 : Int) := by
    rw [binaryOrder_one hn, minExponent]
    omega
  have hpack : ∀ s, ofRatio s n 1 = pack s (roundQuotient
      (scaleRatio 2 n 1 (-(n.log2 - 52 : Int))).1 (scaleRatio 2 n 1 (-(n.log2 - 52 : Int))).2)
      (n.log2 - 52) := by
    intro s
    unfold ofRatio
    simp only [if_neg hn, hexp]
  generalize roundQuotient (scaleRatio 2 n 1 (-(n.log2 - 52 : Int))).1
    (scaleRatio 2 n 1 (-(n.log2 - 52 : Int))).2 = digits at hlow hhigh hvalue hpack
  rcases Nat.lt_or_eq_of_le hhigh with hlt | rfl
  · refine ⟨digits, n.log2, hlow, hlt, hvalue, fun s => ?_⟩
    rw [hpack]
    unfold pack
    have hne : ¬ digits = Nat.pow 2 53 := Nat.ne_of_lt hlt
    simp only [if_neg hne, maxExponent]
    by_cases hfar : 1024 ≤ n.log2
    · rw [if_pos (by omega), if_pos hfar]
    · rw [if_neg (by omega), if_neg hfar]
  · -- all digits were ones and became a one with a carry
    refine ⟨2 ^ 52, n.log2 + 1, Nat.le_refl _, by decide, ?_, fun s => ?_⟩
    · rw [← hvalue]
      ring
    · rw [hpack]
      unfold pack
      have hcarried : 2 ^ 53 = Nat.pow 2 53 := rfl
      have hplace : (n.log2 - 52 : Int) + 1 = ((n.log2 + 1 : Nat) : Int) - 52 := by omega
      simp only [if_pos hcarried, maxExponent, hplace]
      by_cases hfar : 1024 ≤ n.log2 + 1
      · rw [if_pos (by omega), if_pos hfar]
      · rw [if_neg (by omega), if_neg hfar]
        rfl

/-- The place of the first digit tells what is out of range. -/
theorem place_iff {mantissa place value limit : Nat} (hlow : 2 ^ 52 ≤ mantissa)
    (hhigh : mantissa < 2 ^ 53) (h : mantissa * 2 ^ place = value * 2 ^ 52) :
    limit ≤ place ↔ 2 ^ limit ≤ value := by
  constructor
  · intro hplace
    have hpow : 2 ^ limit ≤ 2 ^ place := Nat.pow_le_pow_right (by decide) hplace
    refine Nat.le_of_mul_le_mul_right ?_ (Nat.two_pow_pos 52)
    calc 2 ^ limit * 2 ^ 52 ≤ 2 ^ place * mantissa := Nat.mul_le_mul hpow hlow
      _ = value * 2 ^ 52 := by rw [Nat.mul_comm, h]
  · intro hvalue
    by_contra hplace
    have hpow : 2 * 2 ^ place ≤ 2 ^ limit := by
      rw [Nat.mul_comm, ← Nat.pow_succ]
      exact Nat.pow_le_pow_right (by decide) (by omega)
    have hfar : 2 ^ limit * 2 ^ 52 < 2 ^ limit * 2 ^ 52 := by
      calc 2 ^ limit * 2 ^ 52 ≤ value * 2 ^ 52 := Nat.mul_le_mul_right _ hvalue
        _ = mantissa * 2 ^ place := h.symm
        _ < 2 ^ 53 * 2 ^ place := Nat.mul_lt_mul_of_pos_right hhigh (Nat.two_pow_pos _)
        _ = 2 * 2 ^ place * 2 ^ 52 := by ring
        _ ≤ 2 ^ limit * 2 ^ 52 := Nat.mul_le_mul_right _ hpow
    omega

/-- **Positive integers of one number**: rounded to one integer or both out of range, with one
sign. -/
theorem ofRatio_eq_iff (hm : m ≠ 0) (hn : n ≠ 0) :
    ofRatio s m 1 = ofRatio t n 1 ↔ s = t ∧
      (roundedNat m = roundedNat n ∨ 2 ^ 1024 ≤ roundedNat m ∧ 2 ^ 1024 ≤ roundedNat n) := by
  obtain ⟨a, j, halow, hahigh, ha, hmake⟩ := ofRatio_canonical hm
  obtain ⟨b, k, hblow, hbhigh, hb, hmake'⟩ := ofRatio_canonical hn
  rw [hmake, hmake', ← place_iff halow hahigh ha, ← place_iff hblow hbhigh hb]
  have hsame : roundedNat m = roundedNat n ↔ a = b ∧ j = k := by
    constructor
    · intro h
      rw [h, ← hb] at ha
      exact digits_unique ⟨halow, hahigh⟩ ⟨hblow, hbhigh⟩ ha
    · rintro ⟨rfl, rfl⟩
      exact Nat.eq_of_mul_eq_mul_right (Nat.two_pow_pos 52) (ha.symm.trans hb)
  rw [hsame]
  by_cases hj : 1024 ≤ j
  · rw [if_pos hj]
    by_cases hk : 1024 ≤ k
    · rw [if_pos hk]
      simp [hj, hk]
    · rw [if_neg hk]
      have hne : j ≠ k := by omega
      simp [hk, hne]
  · rw [if_neg hj]
    by_cases hk : 1024 ≤ k
    · rw [if_pos hk]
      have hne : j ≠ k := by omega
      simp [hj, hne]
    · rw [if_neg hk]
      have hplace : (j - 52 : Int) = k - 52 ↔ j = k := by omega
      simp [hj, hplace]

end Numbers

/-! ### Integers of one number -/

section Integers

variable {m n : Int}

theorem roundedNat_eq_zero_iff {n : Nat} : roundedNat n = 0 ↔ n = 0 := by
  rcases Nat.lt_or_ge n (2 ^ 53) with hsmall | hlarge
  · rw [roundedNat_of_lt hsmall]
  · have hrounded := le_roundedNat hlarge
    omega

theorem ofInt_zero : ofInt 0 = zero false := rfl

theorem ofInt_ne_zero (hn : n ≠ 0) : ofInt n ≠ zero false := by
  obtain ⟨mantissa, place, hlow, -, -, hmake⟩ := ofRatio_canonical (n := n.natAbs) (by omega)
  rw [ofInt, hmake]
  by_cases hfar : 1024 ≤ place
  · rw [if_pos hfar]
    exact Binary64.noConfusion
  · rw [if_neg hfar]
    intro h
    injection h with _ hmantissa _
    omega

/-- **The integers that become one number.** -/
theorem ofInt_eq_iff : ofInt m = ofInt n ↔ Coincide (rounded m) (rounded n) := by
  have hlimit : ∀ e, (2 : Int) ^ e = ((2 ^ e : Nat) : Int) := fun e => (Int.natCast_pow 2 e).symm
  have hpower : ∀ e, 0 < 2 ^ e := Nat.two_pow_pos
  have hpos := hpower 1024
  have hrounded : ∀ k : Int, rounded k =
      if k < 0 then -(roundedNat k.natAbs : Int) else roundedNat k.natAbs := fun k => rfl
  have hzero : ∀ k : Int, roundedNat k.natAbs = 0 ↔ k = 0 := fun k => by
    rw [roundedNat_eq_zero_iff]
    omega
  unfold Coincide
  rw [hlimit 1024, hrounded m, hrounded n]
  have hm := hzero m
  have hn := hzero n
  by_cases hm0 : m = 0
  · by_cases hn0 : n = 0
    · rw [hm0, hn0]
      exact iff_of_true rfl (.inl rfl)
    · have hne : ofInt m ≠ ofInt n := by
        rw [hm0, ofInt_zero]
        exact (ofInt_ne_zero hn0).symm
      generalize 2 ^ 1024 = limit at hpos ⊢
      refine iff_of_false hne ?_
      split <;> split <;> omega
  · by_cases hn0 : n = 0
    · have hne : ofInt m ≠ ofInt n := by
        rw [hn0, ofInt_zero]
        exact ofInt_ne_zero hm0
      generalize 2 ^ 1024 = limit at hpos ⊢
      refine iff_of_false hne ?_
      split <;> split <;> omega
    · rw [ofInt, ofInt, ofRatio_eq_iff (by omega) (by omega), decide_eq_decide]
      generalize 2 ^ 1024 = limit at hpos ⊢
      split <;> split <;> omega

theorem natAbs_rounded (n : Int) : (rounded n).natAbs = roundedNat n.natAbs := by
  unfold rounded
  split <;> omega

/-- **An integer below `2 ^ 53`** shares its number with no other. -/
theorem coincide_iff_of_small (h : m.natAbs < 2 ^ 53 ∨ n.natAbs < 2 ^ 53) :
    Coincide (rounded m) (rounded n) ↔ m = n := by
  have hsmall : ∀ k : Int, k.natAbs < 2 ^ 53 → rounded k = k := by
    intro k hk
    rw [rounded, roundedNat_of_lt hk]
    split <;> omega
  have hlarge : ∀ k : Int, 2 ^ 53 ≤ k.natAbs → 2 ^ 53 ≤ (rounded k).natAbs := by
    intro k hk
    rw [natAbs_rounded]
    exact le_roundedNat hk
  have hpower : ∀ e, (2 : Int) ^ 53 ≤ 2 ^ (53 + e) := fun e => by
    rw [Int.pow_add]
    have hpos : (0 : Int) < 2 ^ e := Int.pow_pos (by decide)
    omega
  have hlimit : (2 : Int) ^ 53 ≤ 2 ^ 1024 := hpower 971
  constructor
  · intro hsame
    unfold Coincide at hsame
    generalize (2 : Int) ^ 1024 = limit at hsame hlimit
    have hm := hsmall m
    have hn := hsmall n
    have hm' := hlarge m
    have hn' := hlarge n
    omega
  · rintro rfl
    exact .inl rfl

end Integers

end Runbook.Binary64
