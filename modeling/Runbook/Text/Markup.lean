/-!
# Console markup

Text inside console markup, where `[bold]` opens a style and `[/bold]` closes it.

* `escapeMarkup`: text written so that nothing in it reads as a tag.
* `plainMarkup`: the text that marked-up text shows, its tags taken out.
-/

namespace Runbook.Text

/-- A character that can begin a tag. -/
def isTagStart (c : Char) : Bool :=
  ('a' ≤ c && c ≤ 'z') || c == '#' || c == '/' || c == '@'

/-- The tag that a text begins with, brackets included, and the text behind it. -/
def readTag? : List Char → Option (List Char × List Char)
  | '[' :: c :: cs =>
    if isTagStart c then
      let body := cs.takeWhile fun d => d != '[' && d != ']'
      match cs.drop body.length with
      | ']' :: rest => some ('[' :: c :: body ++ [']'], rest)
      | _ => none
    else none
  | _ => none

/-- Marked-up text as pieces: characters, and tags with the backslashes in front of them. -/
inductive MarkupPiece
  | char (c : Char)
  | tag (backslashes : Nat) (text : List Char)

/-- The pieces of a text; each step takes at least one character, so its length is enough fuel. -/
def markupPiecesFrom : (fuel : Nat) → List Char → List MarkupPiece
  | 0, _ => []
  | _ + 1, [] => []
  | fuel + 1, c :: cs =>
    let slashes := (c :: cs).takeWhile (· == '\\')
    match readTag? ((c :: cs).drop slashes.length) with
    | some (text, rest) => .tag slashes.length text :: markupPiecesFrom fuel rest
    | none => .char c :: markupPiecesFrom fuel cs

/-- The pieces of a marked-up text. -/
def markupPieces (cs : List Char) : List MarkupPiece :=
  markupPiecesFrom cs.length cs

/-- One more backslash for a text that ends in a single one, so that it escapes no tag behind. -/
def closeBackslash (cs : List Char) : List Char :=
  match cs.reverse with
  | '\\' :: '\\' :: _ => cs
  | '\\' :: _ => cs ++ ['\\']
  | _ => cs

/-- A piece with its tag escaped: its backslashes are doubled, and one more is put before it. -/
def MarkupPiece.escaped : MarkupPiece → List Char
  | .char c => [c]
  | .tag n text => List.replicate (2 * n + 1) '\\' ++ text

/-- The text with every tag in it escaped. -/
def escapeMarkup (s : String) : String :=
  String.ofList (closeBackslash ((markupPieces s.toList).flatMap (·.escaped)))

/-- Control characters that the console drops. -/
def isDropped (c : Char) : Bool :=
  let n := c.toNat
  n == 7 || n == 8 || (11 ≤ n && n ≤ 13)

/-- An escaped bracket that begins no tag loses its backslash. -/
def unescapeBrackets : List Char → List Char
  | '\\' :: '[' :: cs => '[' :: unescapeBrackets cs
  | c :: cs => c :: unescapeBrackets cs
  | [] => []

/-- The runs of text between the tags of marked-up text, with the run read so far. -/
def plainRuns (run : List Char) : List MarkupPiece → List (List Char)
  | [] => [run]
  | .char c :: ps => plainRuns (run ++ [c]) ps
  | .tag n text :: ps =>
    let shown := if n % 2 == 1 then text else []
    run :: List.replicate (n / 2) '\\' :: shown :: plainRuns [] ps

/-- The text that marked-up text shows. -/
def plainMarkup (s : String) : String :=
  let runs := (plainRuns [] (markupPieces s.toList)).map unescapeBrackets
  String.ofList (runs.flatten.filter (!isDropped ·))

end Runbook.Text
