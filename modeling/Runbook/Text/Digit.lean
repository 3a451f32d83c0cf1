/-!
# Decimal digits

The value of a character as a decimal digit, in every script that has them (Unicode 14).

* `isAsciiDigit`: the ten digits that path indexes and JSON numbers are written with.
* `digitValue?`: the value of a digit of any script.
-/

namespace Runbook.Text

/-- One of the ten digits `0` to `9`. -/
def isAsciiDigit (c : Char) : Bool :=
  '0'.toNat ≤ c.toNat && c.toNat ≤ '9'.toNat

/-- The zeros of the scripts with decimal digits; each is followed by its other nine digits. -/
def digitZeros : List Nat := [
    48, 1632, 1776, 1984, 2406, 2534, 2662, 2790, 2918, 3046, 3174, 3302, 3430, 3558, 3664, 3792,
    3872, 4160, 4240, 6112, 6160, 6470, 6608, 6784, 6800, 6992, 7088, 7232, 7248, 42528, 43216,
    43264, 43472, 43504, 43600, 44016, 65296, 66720, 68912, 69734, 69872, 69942, 70096, 70384,
    70736, 70864, 71248, 71360, 71472, 71904, 72016, 72784, 73040, 73120, 92768, 92864, 93008,
    120782, 120792, 120802, 120812, 120822, 123200, 123632, 125264, 130032]

/-- The value of a decimal digit of any script. -/
def digitValue? (c : Char) : Option Nat :=
  let n := c.toNat
  if n < 0x80 then
    if isAsciiDigit c then some (n - '0'.toNat) else none
  else (digitZeros.find? fun z => z ≤ n && n < z + 10).map (n - ·)

/-- The number that a row of ASCII digits writes. -/
def natOfDigits (cs : List Char) : Nat :=
  cs.foldl (fun n c => 10 * n + (c.toNat - '0'.toNat)) 0

/-- The digit of a value below ten. -/
def digitChar (n : Nat) : Char :=
  Char.ofNat ('0'.toNat + n)

/-- The decimal digits of a number, most significant first, in front of others. -/
def digitsOnto (n : Nat) (rest : List Char) : List Char :=
  if n < 10 then digitChar n :: rest
  else digitsOnto (n / 10) (digitChar (n % 10) :: rest)
termination_by n

/-- The decimal digits of a number, most significant first. -/
def digitsOfNat (n : Nat) : List Char :=
  digitsOnto n []

/-- The decimal text of a number. -/
def natText (n : Nat) : String :=
  String.ofList (digitsOfNat n)

/-- The decimal text of an integer. -/
def intText : Int → String
  | .ofNat n => natText n
  | .negSucc n => "-" ++ natText (n + 1)

/-- The digits of a number, padded with zeros in front to a width. -/
def paddedNat (width n : Nat) : String :=
  let ds := digitsOfNat n
  String.ofList (List.replicate (width - ds.length) '0' ++ ds)

end Runbook.Text
