import Runbook.Number.Reading

/-!
# Decimal numbers

Decimals that keep their digits: `1.50` and `1.5` are one number with two texts.

* `Decimal.read?`: decimal notation of any length, infinities and NaN; underscores anywhere are
  passed over.
* `Decimal.text`: positional while the exponent is at most zero and the number not small.
* `Decimal.integer?`: the integer that an integral decimal is.
-/

namespace Runbook

open Runbook.Text Runbook.Number

/-- A decimal number: a finite one is `± coefficient · 10 ^ exponent`. -/
inductive Decimal
  | finite (negative : Bool) (coefficient : Nat) (exponent : Int)
  | infinity (negative : Bool)
  | nan (negative signaling : Bool) (payload : Nat)
  deriving DecidableEq, Repr

namespace Decimal

/-- Reads the payload digits behind `nan` or `snan`. -/
def readPayload? (cs : List Char) : Option Nat :=
  if cs.all isAsciiDigit then some (natOfDigits cs) else none

/-- The greatest power of ten of a leading digit. -/
def maxOrder : Int := 999999999999999999

/-- The least power of ten of a last digit. -/
def minExponent : Int := -1999999999999999997

/-- A decimal whose digits lie within the powers of ten that decimals have. -/
def inRange? (negative : Bool) (coefficient : Nat) (exponent : Int) : Option Decimal :=
  let order := exponent + (digitsOfNat coefficient).length - 1
  if minExponent ≤ exponent && order ≤ maxOrder then some (.finite negative coefficient exponent)
  else none

/-- Reads an unsigned decimal, from text in lower case where it is a word. -/
def readUnsigned? (negative : Bool) (cs : List Char) : Option Decimal :=
  match cs.map lowerAscii with
  | ['i', 'n', 'f'] => some (.infinity negative)
  | ['i', 'n', 'f', 'i', 'n', 'i', 't', 'y'] => some (.infinity negative)
  | 'n' :: 'a' :: 'n' :: ds => (readPayload? ds).map (.nan negative false)
  | 's' :: 'n' :: 'a' :: 'n' :: ds => (readPayload? ds).map (.nan negative true)
  | _ => (readDecimal? cs).bind fun (ds, e) => inRange? negative (natOfDigits ds) e

/-- Reads a decimal. -/
def read? (s : String) : Option Decimal :=
  let (negative, body) := readSign (((trimChars s.toList).map asciiDigit).filter (· != '_'))
  readUnsigned? negative body

/-- A sign in front of the text of a magnitude. -/
def signed (negative : Bool) (cs : List Char) : String :=
  String.ofList (if negative then '-' :: cs else cs)

/-- The text of a finite magnitude. -/
def finiteChars (coefficient : Nat) (exponent : Int) : List Char :=
  let ds := digitsOfNat coefficient
  let left : Int := exponent + ds.length
  let point : Int := if exponent ≤ 0 && -6 < left then left else 1
  let mantissa :=
    if point ≤ 0 then '0' :: '.' :: List.replicate (-point).toNat '0' ++ ds
    else
      let p := point.toNat
      if ds.length ≤ p then ds ++ List.replicate (p - ds.length) '0'
      else ds.take p ++ '.' :: ds.drop p
  if left = point then mantissa
  else
    let e := left - point
    mantissa ++ 'E' :: (if e < 0 then '-' else '+') :: digitsOfNat e.natAbs

/-- The text of a decimal. -/
def text : Decimal → String
  | .finite negative c e => signed negative (finiteChars c e)
  | .infinity negative => signed negative "Infinity".toList
  | .nan negative signaling payload =>
    let word := if signaling then "sNaN" else "NaN"
    signed negative (word.toList ++ if payload = 0 then [] else digitsOfNat payload)

/-- Whether the number is neither infinite nor a NaN. -/
def isFinite : Decimal → Bool
  | .finite .. => true
  | _ => false

/-- A coefficient cut down by a power of ten, and whether nothing was cut off. -/
def shiftDown (coefficient places : Nat) : Nat × Bool :=
  if (digitsOfNat coefficient).length < places then (0, coefficient == 0)
  else (coefficient / Nat.pow 10 places, coefficient % Nat.pow 10 places == 0)

/-- The integer below the magnitude, with the sign, and whether it is the number itself. -/
def truncate (negative : Bool) (coefficient : Nat) (exponent : Int) : Int × Bool :=
  let (n, exact) :=
    if 0 ≤ exponent then (coefficient * Nat.pow 10 exponent.toNat, true)
    else shiftDown coefficient (-exponent).toNat
  (if negative then -(n : Int) else n, exact)

/-- The integer that an integral decimal is. -/
def integer? : Decimal → Option Int
  | .finite negative c e =>
    let (n, exact) := truncate negative c e
    if exact then some n else none
  | _ => none

/-- The nearest binary64 number. -/
def toBinary64 : Decimal → Binary64
  | .finite negative c e => .ofDecimal negative c e
  | .infinity negative => .infinity negative
  | .nan .. => .nan

/-- Whether the number counts as true: all but the zeros. -/
def isTruthy : Decimal → Bool
  | .finite _ c _ => c != 0
  | _ => true

end Decimal

end Runbook
