import Runbook.Store

/-!
# Templates

Text with placeholders: an expression between `$` with an opening brace and a closing brace, with
no brace inside.

* `Template.pieces`: a text as characters and placeholders; placeholders are found from left to
  right and do not overlap.
* `Store.resolve`: the text with every placeholder replaced by the text of its value. What is put
  in is not searched for placeholders again.
* `Store.resolveValue`, `Store.resolveGiven`: the same for values, of which only text is a template.
-/

namespace Runbook

namespace Template

/-- A part of a template. -/
inductive Piece
  | char (c : Char)
  | placeholder (inner : List Char)
  deriving DecidableEq, Repr

/-- A character that may stand inside a placeholder. -/
def isInner (c : Char) : Bool :=
  c != '\x7b' && c != '\x7d'

/-- The placeholder that a text begins with, and the text behind it. -/
def placeholder? : List Char → Option (List Char × List Char)
  | '$' :: '\x7b' :: cs =>
    let inner := cs.takeWhile isInner
    match inner, cs.dropWhile isInner with
    | _ :: _, '\x7d' :: rest => some (inner, rest)
    | _, _ => none
  | _ => none

/-- The pieces of a text; each takes at least one character, so its length is enough fuel. -/
def piecesFrom : (fuel : Nat) → List Char → List Piece
  | 0, _ => []
  | _ + 1, [] => []
  | fuel + 1, c :: cs =>
    match placeholder? (c :: cs) with
    | some (inner, rest) => .placeholder inner :: piecesFrom fuel rest
    | none => .char c :: piecesFrom fuel cs

/-- The pieces of a text. -/
def pieces (cs : List Char) : List Piece :=
  piecesFrom cs.length cs

/-- The content of a text that is one placeholder. -/
def single? (s : String) : Option String :=
  match placeholder? s.toList with
  | some (inner, []) => some (String.ofList inner)
  | _ => none

/-- A placeholder as it was written. -/
def written (inner : List Char) : List Char :=
  '$' :: '\x7b' :: inner ++ ['\x7d']

end Template

namespace Store

open Template

/-- The text that a placeholder becomes. -/
def fill (s : Store) (inner : List Char) : Except Error (List Char) :=
  match Path.parse (String.ofList inner) with
  | .error e => .error e
  | .ok p =>
    match s.lookup? p.base with
    | none =>
      match s.policy with
      | .throwError => .error (.missingVariable p.scope p.key)
      | .keepAsIs => .ok (written inner)
      | .replaceWithEmpty => .ok []
    | some v =>
      match drill v p.segments with
      | .error e => .error e
      | .ok w => w.stringify.map (·.toList)

/-- The text that pieces become, one after another. -/
def fillAll (s : Store) : List Piece → Except Error (List Char)
  | [] => .ok []
  | .char c :: rest =>
    match s.fillAll rest with
    | .ok cs => .ok (c :: cs)
    | .error e => .error e
  | .placeholder inner :: rest =>
    match s.fill inner with
    | .error e => .error e
    | .ok here =>
      match s.fillAll rest with
      | .ok cs => .ok (here ++ cs)
      | .error e => .error e

/-- The text of a template. -/
def resolve (s : Store) (template : String) : Except Error String :=
  (s.fillAll (pieces template.toList)).map String.ofList

/-- A value with its placeholders resolved if it is text, and as it is otherwise. -/
def resolveValue (s : Store) (v : Value) : Except Error Value :=
  match v.asText? with
  | some t => (s.resolve t).map .str
  | none => .ok v

/-- A template given as a value: text is resolved, and what counts as not given stays as it is. -/
def resolveGiven (s : Store) (v : Value) : Except Error Value :=
  if v.asText?.isNone && v.isTruthy then .error (.kind (.notText v.typeName)) else s.resolveValue v

end Store

end Runbook
