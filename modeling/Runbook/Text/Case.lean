import Runbook.Text.CaseTable
import Runbook.Text.WordTable

/-!
# Upper and lower case

Full case mapping of text: a character may become several, and a capital sigma at the end of a
word becomes the final sigma.

* `upper`, `lower`: the case mappings of a text.
-/

namespace Runbook.Text

/-- The distance a code point moves under the first run that holds it. -/
def shiftIn (runs : List CaseRun) (n : Nat) : Int :=
  match runs.find? (·.holds n) with
  | some r => r.shift
  | none => 0

/-- The upper case of one character. -/
def upperChar (c : Char) : List Char :=
  let n := c.toNat
  if n < 0x80 then [if 97 ≤ n && n ≤ 122 then Char.ofNat (n - 32) else c]
  else match upperExpansions.find? (·.1 == n) with
    | some (_, cs) => cs.map Char.ofNat
    | none => [Char.ofNat ((n : Int) + shiftIn upperRuns n).toNat]

/-- The lower case of one character, wherever it stands. -/
def lowerChar (c : Char) : List Char :=
  let n := c.toNat
  if n < 0x80 then [if 65 ≤ n && n ≤ 90 then Char.ofNat (n + 32) else c]
  else if n == 0x130 then ['i', Char.ofNat 0x307]
  else [Char.ofNat ((n : Int) + shiftIn lowerRuns n).toNat]

/-- Whether a character lies in one of the ranges. -/
def liesIn (ranges : List (Nat × Nat)) (c : Char) : Bool :=
  ranges.any fun r => r.1 ≤ c.toNat && c.toNat ≤ r.2

/-- Whether the nearest character that is no mark is a letter with case. -/
def meetsCased (cs : List Char) : Bool :=
  match cs.dropWhile (liesIn wordMarkRanges) with
  | c :: _ => liesIn casedRanges c
  | [] => false

/-- Lower case, with the characters read so far in reverse. -/
def lowerFrom (before : List Char) : List Char → List Char
  | [] => []
  | c :: cs =>
    let here :=
      if c.toNat == 0x3A3 then
        [if meetsCased before && !meetsCased cs then Char.ofNat 0x3C2 else Char.ofNat 0x3C3]
      else lowerChar c
    here ++ lowerFrom (c :: before) cs

/-- The text in upper case. -/
def upper (s : String) : String :=
  String.ofList (s.toList.flatMap upperChar)

/-- The text in lower case. -/
def lower (s : String) : String :=
  String.ofList (lowerFrom [] s.toList)

end Runbook.Text
