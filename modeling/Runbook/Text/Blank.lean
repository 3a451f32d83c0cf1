/-!
# Blank space

Which characters count as blank, and how text is trimmed of them. Every trim and every
blank test of the library is this one.

* `isBlank`: the Unicode blanks, with the four information separators U+001C to U+001F; the
  zero-width space U+200B and the byte order mark U+FEFF are no blanks.
* `trimChars`: the text without its leading and trailing blanks.
-/

namespace Runbook.Text

/-- A character that counts as blank space. -/
def isBlank (c : Char) : Bool :=
  let n := c.toNat
  (9 ≤ n && n ≤ 13) || (28 ≤ n && n ≤ 32) || n == 0x85 || n == 0xA0 || n == 0x1680 ||
    (0x2000 ≤ n && n ≤ 0x200A) || n == 0x2028 || n == 0x2029 || n == 0x202F || n == 0x205F ||
    n == 0x3000

/-- The characters without the blanks at their end. -/
def trimEndChars (cs : List Char) : List Char :=
  (cs.reverse.dropWhile isBlank).reverse

/-- The characters without the blanks at either end. -/
def trimChars (cs : List Char) : List Char :=
  trimEndChars (cs.dropWhile isBlank)

/-- The text without the blanks at either end. -/
def trim (s : String) : String :=
  String.ofList (trimChars s.toList)

/-- Text made of blanks only; the empty text is one. -/
def isBlankText (s : String) : Bool :=
  s.toList.all isBlank

/-- Trimming a text trims its characters. -/
theorem toList_trim (s : String) : (trim s).toList = trimChars s.toList := by
  simp [trim]

end Runbook.Text
