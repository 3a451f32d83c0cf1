import Runbook.Error
import Runbook.Number.Reading
import Runbook.Value.Key

/-!
# Reading JSON

JSON text as values. Integers are exact, other numbers are binary64, and `NaN`, `Infinity` and
`-Infinity` are numbers too. Of repeated names in an object the first gives the place and the last
the value.

* `readValue`: the value at the start of a text, with the text behind it.
* `parse`: the value of a whole text, with nothing but white space around it.

Faults carry the text that is left where they lie, so that their place is known without counting.
The fuel counts nested calls: a call reads a character or is the one call for an item, so twice
the length of the text is enough.
-/

namespace Runbook.Json

open Runbook.Text Runbook.Number

/-- Why no value can be read. -/
inductive ReadFault
  | problem (p : Problem) (rest : List Char)
  | tooManyDigits (count : Nat)
  deriving DecidableEq, Repr

/-- What is read, with the text behind it. -/
abbrev Reading (α : Type) := Except ReadFault (α × List Char)

/-- The error of a fault in a text. -/
def ReadFault.toError (text : List Char) : ReadFault → Error
  | .problem p rest => .json (locate p text rest)
  | .tooManyDigits count => .value (.integerTooLong (some count))

/-- The white space of JSON. -/
def isSpace (c : Char) : Bool :=
  c == ' ' || c == '\t' || c == '\n' || c == '\r'

/-- The text behind leading white space. -/
def skipSpace (cs : List Char) : List Char :=
  cs.dropWhile isSpace

/-- The value of a hexadecimal digit. -/
def hexValue? (c : Char) : Option Nat :=
  if isAsciiDigit c then some (c.toNat - '0'.toNat)
  else if 'a' ≤ c && c ≤ 'f' then some (c.toNat - 'a'.toNat + 10)
  else if 'A' ≤ c && c ≤ 'F' then some (c.toNat - 'A'.toNat + 10)
  else none

/-- The number that four hexadecimal digits write. -/
def codeUnit? (a b c d : Char) : Option Nat :=
  match hexValue? a, hexValue? b, hexValue? c, hexValue? d with
  | some a, some b, some c, some d => some (4096 * a + 256 * b + 16 * c + d)
  | _, _, _, _ => none

/-- The character that a letter behind a backslash stands for. -/
def escaped? (c : Char) : Option Char :=
  if c == '"' || c == '\\' || c == '/' then some c
  else if c == 'b' then some '\x08'
  else if c == 'f' then some '\x0c'
  else if c == 'n' then some '\n'
  else if c == 'r' then some '\r'
  else if c == 't' then some '\t'
  else none

/-- A point in front of those read behind it. -/
def consPoint (n : Nat) : Reading (List Nat) → Reading (List Nat)
  | .ok (ns, rest) => .ok (n :: ns, rest)
  | .error e => .error e

/-- The code points and surrogates of a string, up to its closing quote. `opening` is the text
from its opening quote on. -/
def readPoints (opening : List Char) : List Char → Reading (List Nat)
  | [] => .error (.problem .openString opening)
  | c :: rest =>
    if c == '"' then .ok ([], rest)
    else if c == '\\' then
      match rest with
      | [] => .error (.problem .openString opening)
      | e :: more =>
        if e == 'u' then
          match more with
          -- the digits do not count as four unless something stands behind them
          | h₁ :: h₂ :: h₃ :: h₄ :: next :: tail =>
            match codeUnit? h₁ h₂ h₃ h₄ with
            | some n => consPoint n (readPoints opening (next :: tail))
            | none => .error (.problem .badCodeEscape rest)
          | _ => .error (.problem .badCodeEscape rest)
        else
          match escaped? e with
          | some d => consPoint d.toNat (readPoints opening more)
          | none => .error (.problem .badEscape (c :: rest))
    else if c.toNat < 0x20 then .error (.problem .controlCharacter (c :: rest))
    else consPoint c.toNat (readPoints opening rest)

/-- A first half of a surrogate pair. -/
def isHighSurrogate (n : Nat) : Bool := 0xD800 ≤ n && n < 0xDC00

/-- A second half of a surrogate pair. -/
def isLowSurrogate (n : Nat) : Bool := 0xDC00 ≤ n && n < 0xE000

/-- The character of a code point; a lone surrogate becomes the replacement character. -/
def pointChar (n : Nat) : Char :=
  if isHighSurrogate n || isLowSurrogate n then Char.ofNat 0xFFFD else Char.ofNat n

/-- Code points as characters, surrogate pairs joined. -/
def joinPoints : List Nat → List Char
  | a :: b :: rest =>
    if isHighSurrogate a && isLowSurrogate b then
      Char.ofNat (0x10000 + 1024 * (a - 0xD800) + (b - 0xDC00)) :: joinPoints rest
    else pointChar a :: joinPoints (b :: rest)
  | [a] => [pointChar a]
  | [] => []

/-- A string behind its opening quote. -/
def readString (rest : List Char) : Reading String :=
  match readPoints ('"' :: rest) rest with
  | .ok (points, rest) => .ok (String.ofList (joinPoints points), rest)
  | .error e => .error e

/-- The digits of the integer part of a number: a zero, or digits that do not begin with one. -/
def readWhole? (cs : List Char) : Option (List Char × List Char) :=
  match cs with
  | '0' :: rest => some (['0'], rest)
  | c :: _ => if isAsciiDigit c then some (spanDigits cs) else none
  | [] => none

/-- The digits behind a point; a point without digits is left alone. -/
def readFraction (cs : List Char) : Option (List Char) × List Char :=
  match cs with
  | '.' :: rest =>
    let (ds, tail) := spanDigits rest
    if ds.isEmpty then (none, cs) else (some ds, tail)
  | _ => (none, cs)

/-- The exponent of a number; a mark without digits is left alone. -/
def readPower (cs : List Char) : Option Int × List Char :=
  match cs with
  | c :: rest =>
    if c == 'e' || c == 'E' then
      let (negative, body) := readSign rest
      let (ds, tail) := spanDigits body
      let n : Int := natOfDigits ds
      if ds.isEmpty then (none, cs) else (some (if negative then -n else n), tail)
    else (none, cs)
  | [] => (none, cs)

/-- The value of a number's parts. -/
def numberValue (negative : Bool) (whole : List Char) (fraction : Option (List Char))
    (power : Option Int) : Except ReadFault Value :=
  if fraction.isNone && power.isNone then
    -- with a fraction or an exponent, any number of digits would do
    if maxIntegerDigits < whole.length then .error (.tooManyDigits whole.length)
    else
      let n : Int := natOfDigits whole
      .ok (.int (if negative then -n else n))
  else
    let decimals := fraction.getD []
    .ok (.float (.ofDecimal negative (natOfDigits (whole ++ decimals))
      (power.getD 0 - decimals.length)))

/-- A number; `start` is the text from its sign on. -/
def readNumber (negative : Bool) (start cs : List Char) : Reading Value :=
  match readWhole? cs with
  | none => .error (.problem .missingValue start)
  | some (whole, rest) =>
    let (fraction, rest) := readFraction rest
    let (power, rest) := readPower rest
    match numberValue negative whole fraction power with
    | .ok v => .ok (v, rest)
    | .error e => .error e

/-- The words that are values. -/
def words : List (List Char × Value) :=
  [("null".toList, .null), ("true".toList, .bool true), ("false".toList, .bool false),
    ("NaN".toList, .float .nan), ("Infinity".toList, .float (.infinity false)),
    ("-Infinity".toList, .float (.infinity true))]

/-- The text behind a word, if the text begins with it. -/
def afterWord? : (word : List Char) → List Char → Option (List Char)
  | [], cs => some cs
  | w :: ws, c :: cs => if w == c then afterWord? ws cs else none
  | _ :: _, [] => none

/-- The value of the word that a text begins with. -/
def readWord? (table : List (List Char × Value)) (cs : List Char) : Option (Value × List Char) :=
  match table with
  | [] => none
  | (word, v) :: more =>
    match afterWord? word cs with
    | some rest => some (v, rest)
    | none => readWord? more cs

/-- A value that is no string, array or object. -/
def readScalar (cs : List Char) : Reading Value :=
  match readWord? words cs with
  | some found => .ok found
  | none =>
    match cs with
    | '-' :: rest => readNumber true cs rest
    | _ => readNumber false cs cs

mutual

/-- The value at the start of a text. -/
def readValueWith : (fuel : Nat) → List Char → Reading Value
  | 0, cs => .error (.problem .missingValue cs)
  | fuel + 1, cs =>
    match cs with
    | '"' :: rest =>
      match readString rest with
      | .ok (s, rest) => .ok (.str s, rest)
      | .error e => .error e
    | '[' :: rest =>
      match skipSpace rest with
      | ']' :: rest => .ok (.list [], rest)
      | rest =>
        match readItemsWith fuel rest with
        | .ok (items, rest) => .ok (.list items, rest)
        | .error e => .error e
    | '\x7b' :: rest =>
      match skipSpace rest with
      | '\x7d' :: rest => .ok (.dict [], rest)
      | rest =>
        match readMembersWith fuel rest with
        | .ok (members, rest) => .ok (.dict (Entries.ofList members), rest)
        | .error e => .error e
    | _ => readScalar cs

/-- The items of an array, one at least, up to its closing bracket. -/
def readItemsWith : (fuel : Nat) → List Char → Reading (List Value)
  | 0, cs => .error (.problem .missingValue cs)
  | fuel + 1, cs =>
    match readValueWith fuel cs with
    | .error e => .error e
    | .ok (v, rest) =>
      match skipSpace rest with
      | ']' :: rest => .ok ([v], rest)
      | ',' :: rest =>
        match readItemsWith fuel (skipSpace rest) with
        | .ok (items, rest) => .ok (v :: items, rest)
        | .error e => .error e
      | rest => .error (.problem .missingComma rest)

/-- The members of an object, one at least, up to its closing brace. -/
def readMembersWith : (fuel : Nat) → List Char → Reading (List (Value × Value))
  | 0, cs => .error (.problem .missingName cs)
  | fuel + 1, cs =>
    match cs with
    | '"' :: rest =>
      match readString rest with
      | .error e => .error e
      | .ok (name, rest) =>
        match skipSpace rest with
        | ':' :: rest =>
          match readValueWith fuel (skipSpace rest) with
          | .error e => .error e
          | .ok (v, rest) =>
            match skipSpace rest with
            | '\x7d' :: rest => .ok ([(.str name, v)], rest)
            | ',' :: rest =>
              match readMembersWith fuel (skipSpace rest) with
              | .ok (members, rest) => .ok ((.str name, v) :: members, rest)
              | .error e => .error e
            | rest => .error (.problem .missingComma rest)
        | rest => .error (.problem .missingColon rest)
    | _ => .error (.problem .missingName cs)

end

/-- The value at the start of a text, with the text behind it. -/
def readValue (cs : List Char) : Reading Value :=
  readValueWith (2 * cs.length + 2) cs

/-- The value of a whole text. -/
def readWhole (cs : List Char) : Except ReadFault Value :=
  match cs with
  | '\uFEFF' :: _ => .error (.problem .byteOrderMark cs)
  | _ =>
    match readValue (skipSpace cs) with
    | .error e => .error e
    | .ok (v, rest) =>
      match skipSpace rest with
      | [] => .ok v
      | rest => .error (.problem .extraData rest)

/-- The value of a whole text, or the error that says where it goes wrong. -/
def parse (cs : List Char) : Except Error Value :=
  match readWhole cs with
  | .ok v => .ok v
  | .error e => .error (e.toError cs)

end Runbook.Json
