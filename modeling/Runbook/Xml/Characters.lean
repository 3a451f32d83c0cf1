/-!
# Characters of XML

Which characters may occur in a document and in its names, and how lines end.

* `nameStart`, `nameChar`: the characters of names without colons.
* `unifyLineEnds`: every line ends in a line feed.
-/

namespace Runbook.Xml

/-- A character that may occur in a document. -/
def isXmlChar (c : Char) : Bool :=
  let n := c.toNat
  n == 9 || n == 10 || n == 13 || (0x20 ≤ n && n != 0xFFFE && n != 0xFFFF)

/-- The white space of markup. -/
def isSpace (c : Char) : Bool :=
  c == ' ' || c == '\n' || c == '\t' || c == '\r'

/-- The ranges of characters that begin a name. -/
def nameStartRanges : List (Nat × Nat) :=
  [(0x41, 0x5A), (0x5F, 0x5F), (0x61, 0x7A), (0xC0, 0xD6), (0xD8, 0xF6), (0xF8, 0x2FF),
    (0x370, 0x37D), (0x37F, 0x1FFF), (0x200C, 0x200D), (0x2070, 0x218F), (0x2C00, 0x2FEF),
    (0x3001, 0xD7FF), (0xF900, 0xFDCF), (0xFDF0, 0xFFFD), (0x10000, 0xEFFFF)]

/-- The ranges of characters that continue a name. -/
def nameMoreRanges : List (Nat × Nat) :=
  [(0x2D, 0x2E), (0x30, 0x39), (0xB7, 0xB7), (0x300, 0x36F), (0x203F, 0x2040)]

/-- Whether a character lies in one of the ranges. -/
def inRanges (ranges : List (Nat × Nat)) (c : Char) : Bool :=
  ranges.any fun r => r.1 ≤ c.toNat && c.toNat ≤ r.2

/-- A character that begins a name without colons. -/
def nameStart (c : Char) : Bool :=
  inRanges nameStartRanges c

/-- A character of a name without colons. -/
def nameChar (c : Char) : Bool :=
  nameStart c || inRanges nameMoreRanges c

/-- A name without colons, and the text behind it. -/
def readName? : List Char → Option (String × List Char)
  | c :: cs =>
    if nameStart c then
      some (String.ofList (c :: cs.takeWhile nameChar), cs.dropWhile nameChar)
    else none
  | [] => none

/-- Carriage returns, with or without a line feed behind them, as line feeds. -/
def unifyLineEnds : List Char → List Char
  | '\r' :: '\n' :: cs => '\n' :: unifyLineEnds cs
  | '\r' :: cs => '\n' :: unifyLineEnds cs
  | c :: cs => c :: unifyLineEnds cs
  | [] => []

/-- The text behind a word, if the text begins with it. -/
def afterWord? : (word : List Char) → List Char → Option (List Char)
  | [], cs => some cs
  | w :: ws, c :: cs => if w == c then afterWord? ws cs else none
  | _ :: _, [] => none

/-- The text up to a word and the text behind it. -/
def splitAtWord? (word : List Char) : List Char → Option (List Char × List Char)
  | [] => (afterWord? word []).map ([], ·)
  | c :: cs =>
    match afterWord? word (c :: cs) with
    | some rest => some ([], rest)
    | none => (splitAtWord? word cs).map fun (a, b) => (c :: a, b)

/-- The text behind leading white space. -/
def skipSpace (cs : List Char) : List Char :=
  cs.dropWhile isSpace

end Runbook.Xml
