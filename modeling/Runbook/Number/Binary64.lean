/-!
# Binary64 numbers

Floating point numbers of 64 bits as exact values: a finite one is `± mantissa · 2 ^ exponent`.
Every operation computes the exact ratio and rounds it once.

* `ofRatio`: the nearest number to a ratio, ties to the even mantissa. All finite numbers of the
  library are built by it, so each value has one representation (up to the sign of zero).
* `same`: numeric equality, under which the zeros agree and a NaN equals nothing.
* `ofDecimal`: the nearest number to `digits · 10 ^ exponent`.
-/

namespace Runbook

/-- A floating point number of 64 bits. -/
inductive Binary64
  | nan
  | infinity (negative : Bool)
  | finite (negative : Bool) (mantissa : Nat) (exponent : Int)
  deriving DecidableEq, Repr

namespace Binary64

/-- The exponent of the smallest positive number. -/
def minExponent : Int := -1074

/-- The exponent of the largest finite number. -/
def maxExponent : Int := 971

/-- Zero with a sign. -/
def zero (negative : Bool) : Binary64 := .finite negative 0 minExponent

/-- The quotient nearest to a ratio, ties to even. -/
def roundQuotient (num den : Nat) : Nat :=
  let q := num / den
  let r := num % den
  if 2 * r < den then q else if den < 2 * r then q + 1 else q + q % 2

/-- The ratio times a power of a base. -/
def scaleRatio (base : Nat) (num den : Nat) (power : Int) : Nat × Nat :=
  if 0 ≤ power then (num * Nat.pow base power.toNat, den)
  else (num, den * Nat.pow base (-power).toNat)

/-- Whether a ratio reaches a power of a base. -/
def reachesPower (base : Nat) (num den : Nat) (power : Int) : Bool :=
  let r := scaleRatio base num den (-power)
  r.2 ≤ r.1

/-- The exponent of the power of two below a positive ratio. -/
def binaryOrder (num den : Nat) : Int :=
  let guess := (Nat.log2 num : Int) - Nat.log2 den
  if reachesPower 2 num den guess then guess else guess - 1

/-- A rounded mantissa with its exponent, carried into the next exponent or past the range. -/
def pack (negative : Bool) (mantissa : Nat) (exponent : Int) : Binary64 :=
  let carried := mantissa = Nat.pow 2 53
  let e := if carried then exponent + 1 else exponent
  if maxExponent < e then .infinity negative
  else .finite negative (if carried then Nat.pow 2 52 else mantissa) e

/-- The number nearest to a ratio, ties to even. -/
def ofRatio (negative : Bool) (num den : Nat) : Binary64 :=
  if num = 0 then zero negative
  else
    -- 53 binary digits, fewer for numbers too small for them
    let e := max (binaryOrder num den - 52) minExponent
    let r := scaleRatio 2 num den (-e)
    pack negative (roundQuotient r.1 r.2) e

/-- The number nearest to an integer. -/
def ofInt (n : Int) : Binary64 :=
  ofRatio (n < 0) n.natAbs 1

/-- The number nearest to `digits · 10 ^ exponent`. Exponents far outside the range are decided
without computing the power. -/
def ofDecimal (negative : Bool) (digits : Nat) (exponent : Int) : Binary64 :=
  if digits = 0 then zero negative
  else if 400 < exponent then .infinity negative
  -- ten is more than 2 ^ 3, and what is below 2 ^ -1075 is rounded to zero
  else if (Nat.log2 digits : Int) + 1101 < -3 * exponent then zero negative
  else
    let r := scaleRatio 10 digits 1 exponent
    ofRatio negative r.1 r.2

/-- The magnitude of a finite number as a ratio. -/
def magnitude (mantissa : Nat) (exponent : Int) : Nat × Nat :=
  scaleRatio 2 mantissa 1 exponent

/-- Numeric equality. -/
def same : Binary64 → Binary64 → Bool
  | .nan, _ => false
  | _, .nan => false
  | .finite _ 0 _, .finite _ 0 _ => true
  | x, y => x = y

/-- An integer part over a denominator, or no value for infinities and NaN. -/
def toRatio? : Binary64 → Option (Int × Nat)
  | .finite neg m e =>
    let r := magnitude m e
    some (if neg then -(r.1 : Int) else r.1, r.2)
  | _ => none

/-- The strict order; a NaN is below nothing. -/
def less : Binary64 → Binary64 → Bool
  | .nan, _ => false
  | _, .nan => false
  | .infinity a, .infinity b => a && !b
  | .infinity a, _ => a
  | _, .infinity b => !b
  | x, y =>
    match x.toRatio?, y.toRatio? with
    | some (a, b), some (c, d) => a * d < c * b
    | _, _ => false

/-- The number with its sign turned. -/
def negate : Binary64 → Binary64
  | .nan => .nan
  | .infinity s => .infinity !s
  | .finite s m e => .finite (!s) m e

/-- Whether the sign is negative. -/
def isNegative : Binary64 → Bool
  | .nan => false
  | .infinity s => s
  | .finite s _ _ => s

/-- The number nearest to a signed ratio. -/
def ofSignedRatio (num : Int) (den : Nat) : Binary64 :=
  ofRatio (num < 0) num.natAbs den

/-- The sum. -/
def add : Binary64 → Binary64 → Binary64
  | .nan, _ => .nan
  | _, .nan => .nan
  | .infinity a, .infinity b => if a = b then .infinity a else .nan
  | .infinity a, _ => .infinity a
  | _, .infinity b => .infinity b
  | .finite s 0 _, .finite t 0 _ => zero (s && t)
  | x, y =>
    match x.toRatio?, y.toRatio? with
    | some (a, b), some (c, d) => ofSignedRatio (a * d + c * b) (b * d)
    | _, _ => .nan

/-- The difference. -/
def sub (x y : Binary64) : Binary64 :=
  add x y.negate

/-- The product. -/
def mul : Binary64 → Binary64 → Binary64
  | .nan, _ => .nan
  | _, .nan => .nan
  | .infinity s, y => if y.same (zero false) then .nan else .infinity (s != y.isNegative)
  | x, .infinity s => if x.same (zero false) then .nan else .infinity (s != x.isNegative)
  | .finite s m e, .finite t n f =>
    let a := magnitude m e
    let b := magnitude n f
    ofRatio (s != t) (a.1 * b.1) (a.2 * b.2)

/-- The quotient. -/
def div : Binary64 → Binary64 → Binary64
  | .nan, _ => .nan
  | _, .nan => .nan
  | .infinity _, .infinity _ => .nan
  | .infinity s, y => .infinity (s != y.isNegative)
  | .finite s _ _, .infinity t => zero (s != t)
  | .finite s m e, .finite t n f =>
    let a := magnitude m e
    let b := magnitude n f
    if n = 0 then (if m = 0 then .nan else .infinity (s != t))
    else ofRatio (s != t) (a.1 * b.2) (a.2 * b.1)

/-- The remainder of the quotient cut toward zero; it has the sign of the dividend. -/
def truncMod : Binary64 → Binary64 → Binary64
  | .finite s m e, .finite _ n f =>
    let a := magnitude m e
    let b := magnitude n f
    if n = 0 then .nan
    else ofRatio s ((a.1 * b.2) % (b.1 * a.2)) (a.2 * b.2)
  | .finite s m e, .infinity _ => .finite s m e
  | _, _ => .nan

/-- The remainder of the quotient cut to the floor, by a positive divisor. -/
def floorMod (x y : Binary64) : Binary64 :=
  let r := truncMod x y
  if r.same (zero false) then r else if r.isNegative then add r y else r

/-- A number cut toward zero, if it is finite. -/
def truncate? : Binary64 → Option Int
  | .finite s m e =>
    let r := magnitude m e
    let n := r.1 / r.2
    some (if s then -(n : Int) else n)
  | _ => none

/-- The greatest integral number not above. -/
def floor (x : Binary64) : Binary64 :=
  match x.toRatio? with
  | some (a, b) => let n := a.fdiv b; if n = 0 then zero x.isNegative else ofInt n
  | none => x

/-- The quotient cut to the floor, by a positive divisor. -/
def floorDiv (x y : Binary64) : Binary64 :=
  let quotient := div (sub x (floorMod x y)) y
  let below := quotient.floor
  if less (ofRatio false 1 2) (sub quotient below) then add below (ofInt 1) else below

end Binary64

end Runbook
