import Runbook.Number.Binary64
import Runbook.Text.Digit

/-!
# Text of binary64 numbers

* `shortest`: the fewest decimal digits that read back as the number, and of those the nearest.
* `Binary64.text`: positional from `0.0001` up to below `10 ^ 16`, with at least one decimal;
  otherwise with an exponent of at least two digits.
* `Binary64.fixedText`: a given number of decimals of the exact value, ties to even.
-/

namespace Runbook.Binary64

open Runbook.Text

/-- The least `e` with the ratio below `10 ^ e`, looked for near a guess from the binary order. -/
def decimalOrder (num den : Nat) : Int :=
  -- the fraction is just above the decimal logarithm of two
  let guess := (binaryOrder num den * 30103).fdiv 100000
  if !reachesPower 10 num den guess then guess
  else if !reachesPower 10 num den (guess + 1) then guess + 1
  else guess + 2

/-- The number of so many digits nearest to a ratio among its two neighbours that read back. -/
def neighbour? (x : Binary64) (num den : Nat) (exponent : Int) : Option Nat :=
  let r := scaleRatio 10 num den (-exponent)
  let d := r.1 / r.2
  let readsBack := fun n => ofDecimal x.isNegative n exponent = x
  let nearest := roundQuotient r.1 r.2
  -- at a power of two the gap below is half as wide: the nearest may fail where a farther one
  -- does not
  if readsBack nearest then some nearest
  else if readsBack d then some d
  else if readsBack (d + 1) then some (d + 1)
  else none

/-- The first count of digits from `count` on, at most `fuel` of them, that has a neighbour. -/
def shortestFrom (x : Binary64) (num den : Nat) (order : Int) : (fuel count : Nat) → Nat × Int
  -- seventeen digits always read back; in any case it is a number other than zero
  | 0, count => (max 1 (roundQuotient num den), order - count)
  | fuel + 1, count =>
    match neighbour? x num den (order - count) with
    | some d => (d, order - count)
    | none => shortestFrom x num den order fuel (count + 1)

/-- The fewest digits that read back, with the power of ten they count. -/
def shortest (x : Binary64) (mantissa : Nat) (exponent : Int) : Nat × Int :=
  let r := magnitude mantissa exponent
  shortestFrom x r.1 r.2 (decimalOrder r.1 r.2) 17 1

/-- The digits without zeros at their end. -/
def dropEndZeros (ds : List Char) : List Char :=
  (ds.reverse.dropWhile (· == '0')).reverse

/-- Digits with the point behind the `point`-th of them, zeros filled in on either side. -/
def positional (ds : List Char) (point : Int) : List Char :=
  if point ≤ 0 then '0' :: '.' :: List.replicate (-point).toNat '0' ++ ds
  else
    let p := point.toNat
    if ds.length ≤ p then ds ++ List.replicate (p - ds.length) '0' ++ ['.', '0']
    else ds.take p ++ '.' :: ds.drop p

/-- One digit before the point, and the exponent with its sign and at least two digits. -/
def scientific (ds : List Char) (exponent : Int) : List Char :=
  let mantissa := match ds with
    | d :: e :: rest => d :: '.' :: e :: rest
    | ds => ds
  mantissa ++ 'e' :: (if exponent < 0 then '-' else '+') ::
    (paddedNat 2 exponent.natAbs).toList

/-- The text of a finite number without its sign. -/
def unsignedText (mantissa : Nat) (exponent : Int) : List Char :=
  if mantissa = 0 then ['0', '.', '0']
  else
    let (d, e) := shortest (.finite false mantissa exponent) mantissa exponent
    let all := digitsOfNat d
    let point : Int := all.length + e
    let ds := dropEndZeros all
    if -4 ≤ point - 1 && point - 1 < 16 then positional ds point else scientific ds (point - 1)

/-- The text of a finite number. -/
def finiteText (negative : Bool) (mantissa : Nat) (exponent : Int) : String :=
  String.ofList ((if negative then ['-'] else []) ++ unsignedText mantissa exponent)

/-- The text of a number. -/
def text : Binary64 → String
  | .nan => "nan"
  | .infinity negative => if negative then "-inf" else "inf"
  | .finite negative mantissa exponent => finiteText negative mantissa exponent

/-- The text of a number with a given count of decimals. -/
def fixedText (places : Nat) : Binary64 → String
  | .finite negative mantissa exponent =>
    let r := magnitude mantissa exponent
    let n := roundQuotient (r.1 * Nat.pow 10 places) r.2
    let ds := (paddedNat (places + 1) n).toList
    let whole := ds.take (ds.length - places)
    let sign := if negative then ['-'] else []
    String.ofList (sign ++ whole ++ '.' :: ds.drop (ds.length - places))
  | x => x.text

end Runbook.Binary64
