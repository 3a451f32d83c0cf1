import Runbook.Text.Printable
import Runbook.Text.Digit

/-!
# Quoted text

Text as a literal, the way messages quote what they were given.

* `quote`: single quotes, or double quotes around text that has a single and no double quote;
  what cannot be printed is written by its code.
* `quoteBytes`: the same for bytes, of which only printable ASCII stands for itself.
* `quoteByteArray`: bytes that can be changed, where a single quote always has a backslash.
-/

namespace Runbook.Text

/-- The digit of a value below sixteen, in lower case. -/
def hexDigit (n : Nat) : Char :=
  if n < 10 then digitChar n else Char.ofNat ('a'.toNat + (n - 10))

/-- The lowest hexadecimal digits of a number, as many as asked for. -/
def hexDigits : (width : Nat) → Nat → List Char
  | 0, _ => []
  | w + 1, n => hexDigits w (n / 16) ++ [hexDigit (n % 16)]

/-- A code point behind a backslash, in two, four or eight digits. -/
def codeEscape (n : Nat) : List Char :=
  if n ≤ 0xFF then '\\' :: 'x' :: hexDigits 2 n
  else if n ≤ 0xFFFF then '\\' :: 'u' :: hexDigits 4 n
  else '\\' :: 'U' :: hexDigits 8 n

/-- One character inside quotes. -/
def quoteChar (mark c : Char) : List Char :=
  if c == mark || c == '\\' then ['\\', c]
  else if c == '\n' then ['\\', 'n']
  else if c == '\r' then ['\\', 'r']
  else if c == '\t' then ['\\', 't']
  else if isPrintable c then [c]
  else codeEscape c.toNat

/-- The quotes a text is put in. -/
def quoteMark (cs : List Char) : Char :=
  if cs.contains '\'' && !cs.contains '"' then '"' else '\''

/-- The characters of a quoted text. -/
def quoteChars (cs : List Char) : List Char :=
  let mark := quoteMark cs
  mark :: cs.flatMap (quoteChar mark) ++ [mark]

/-- The text as a literal. -/
def quote (s : String) : String :=
  String.ofList (quoteChars s.toList)

/-- One byte inside quotes. -/
def quoteByte (mark : Char) (b : UInt8) : List Char :=
  let c := Char.ofNat b.toNat
  if b.toNat < 0x7F then quoteChar mark c else '\\' :: 'x' :: hexDigits 2 b.toNat

/-- The quotes bytes are put in. -/
def quoteMarkOfBytes (bs : List UInt8) : Char :=
  quoteMark (bs.map fun b => Char.ofNat b.toNat)

/-- The bytes as a literal behind a `b`. -/
def quoteBytes (bs : List UInt8) : String :=
  let mark := quoteMarkOfBytes bs
  String.ofList ('b' :: mark :: bs.flatMap (quoteByte mark) ++ [mark])

/-- The bytes of a byte array as a literal. A single quote has a backslash whatever the quotes are,
and a double quote never has one: it stands only where the single quotes are taken. -/
def quoteByteArray (bs : List UInt8) : String :=
  let mark := quoteMarkOfBytes bs
  String.ofList ("bytearray(b".toList ++ mark :: bs.flatMap (quoteByte '\'') ++ [mark, ')'])

end Runbook.Text
