import Runbook.Number.Binary64
import Runbook.Text.Blank
import Runbook.Text.Digit

/-!
# Reading numbers

Numbers as people type them: blanks around them, digits of any script, and single underscores
between digits.

* `readInteger`: an integer, or why the text is none.
* `Binary64.read?`: a floating point number, also `inf`, `infinity` and `nan` in any case.
-/

namespace Runbook

open Runbook.Text

/-- The most digits that integers are read from or written with. -/
def maxIntegerDigits : Nat := 4300

namespace Number

/-- Digits of any script as ASCII digits; other characters stay. -/
def asciiDigit (c : Char) : Char :=
  match digitValue? c with
  | some d => digitChar d
  | none => c

/-- A blank that may stand around a number; separators of records are none. -/
def isNumberBlank (c : Char) : Bool :=
  isBlank c && !('\x1c' ≤ c && c ≤ '\x1f')

/-- A text without the blanks around a number. -/
def trimNumber (cs : List Char) : List Char :=
  ((cs.dropWhile isNumberBlank).reverse.dropWhile isNumberBlank).reverse

/-- The text to read a number from: trimmed, with ASCII digits. -/
def plainChars (cs : List Char) : List Char :=
  (trimNumber cs).map asciiDigit

/-- The text without its underscores, if each of them stands between two digits. -/
def dropUnderscores? (afterDigit : Bool) : List Char → Option (List Char)
  | [] => some []
  | '_' :: c :: cs =>
    if afterDigit && isAsciiDigit c then (dropUnderscores? true cs).map (c :: ·) else none
  | c :: cs => if c == '_' then none else (dropUnderscores? (isAsciiDigit c) cs).map (c :: ·)

/-- A sign in front of a text. -/
def readSign : List Char → Bool × List Char
  | '+' :: cs => (false, cs)
  | '-' :: cs => (true, cs)
  | cs => (false, cs)

/-- The digits a text begins with, and the text behind them. -/
def spanDigits (cs : List Char) : List Char × List Char :=
  (cs.takeWhile isAsciiDigit, cs.dropWhile isAsciiDigit)

/-- Why a text is no integer. -/
inductive IntegerFault
  | malformed
  | tooManyDigits (count : Nat)
  deriving DecidableEq, Repr

/-- Reads an integer. -/
def readInteger (s : String) : Except IntegerFault Int :=
  match dropUnderscores? false (plainChars s.toList) with
  | none => .error .malformed
  | some cs =>
    let (negative, body) := readSign cs
    let (ds, rest) := spanDigits body
    if maxIntegerDigits < ds.length then .error (.tooManyDigits ds.length)
    else if ds.isEmpty || !rest.isEmpty then .error .malformed
    else .ok (if negative then -(natOfDigits ds : Int) else natOfDigits ds)

/-- An exponent behind its mark; the whole text must be one, or be empty. -/
def readExponent? : List Char → Option Int
  | [] => some 0
  | c :: cs =>
    if c == 'e' || c == 'E' then
      let (negative, body) := readSign cs
      let (ds, rest) := spanDigits body
      if ds.isEmpty || !rest.isEmpty then none
      else some (if negative then -(natOfDigits ds : Int) else natOfDigits ds)
    else none

/-- Unsigned decimal notation: the digits without the point, and their power of ten. -/
def readDecimal? (cs : List Char) : Option (List Char × Int) :=
  let (whole, rest) := spanDigits cs
  let (decimals, rest) := match rest with
    | '.' :: cs => spanDigits cs
    | cs => ([], cs)
  if whole.isEmpty && decimals.isEmpty then none
  else (readExponent? rest).map fun e => (whole ++ decimals, e - decimals.length)

/-- Letters in lower case, for words of ASCII letters. -/
def lowerAscii (c : Char) : Char :=
  if 'A' ≤ c && c ≤ 'Z' then Char.ofNat (c.toNat + 32) else c

end Number

open Number

/-- Reads a floating point number. -/
def Binary64.read? (s : String) : Option Binary64 := do
  let cs ← dropUnderscores? false (plainChars s.toList)
  let (negative, body) := readSign cs
  let word := String.ofList (body.map lowerAscii)
  if word == "nan" then some .nan
  else if word == "inf" || word == "infinity" then some (.infinity negative)
  else do
    let (ds, e) ← readDecimal? body
    some (.ofDecimal negative (natOfDigits ds) e)

end Runbook
