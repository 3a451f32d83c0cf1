import Runbook.Text.Blank
import Runbook.Value.Text

/-!
# Variable paths

Expressions such as `Task1.Body[0].name`: a scope, a base key, and steps into the value. Outside
brackets a point separates names; brackets hold an index, if they hold ASCII digits only, or a
name, and do not nest.

* `Path.tokens`: the segments of a text, in order.
* `Path.parse`: the path of an expression, with or without `$` and braces around it.
-/

namespace Runbook

open Runbook.Text

/-- One step into a value: to a named member or to a position. -/
inductive Segment
  | key (name : String)
  | index (position : Int)
  deriving DecidableEq, Repr

/-- The text of a segment. -/
def Segment.text : Segment → String
  | .key name => name
  | .index position => "[" ++ intText position ++ "]"

/-- A variable with steps into its value. -/
structure Path where
  scope : String
  key : String
  segments : List Segment
  deriving DecidableEq, Repr

namespace Path

/-- The name of the variable. -/
def baseName (p : Path) : String :=
  Error.variableName p.scope p.key

/-- Why a text has no segments. -/
inductive TokenFault
  | openBracket
  | tooManyDigits (count : Nat)
  deriving DecidableEq, Repr

/-- The segment of a name read so far; an empty one is none. -/
def wordSegment (word : List Char) : List Segment :=
  if word.isEmpty then [] else [.key (String.ofList word)]

/-- The segment of a bracket's content. -/
def bracketSegment (content : List Char) : Except TokenFault Segment :=
  let inner := trimChars content
  -- empty brackets hold the empty name
  if inner.isEmpty || !inner.all isAsciiDigit then .ok (.key (String.ofList inner))
  else if maxIntegerDigits < inner.length then .error (.tooManyDigits inner.length)
  else .ok (.index (natOfDigits inner))

/-- Segments in front of those read behind them. -/
def andThen (front : List Segment) :
    Except TokenFault (List Segment) → Except TokenFault (List Segment)
  | .ok more => .ok (front ++ more)
  | .error e => .error e

mutual

/-- The segments of a text outside brackets, where `word` is the name read so far. -/
def tokensOutside (word : List Char) : List Char → Except TokenFault (List Segment)
  | [] => .ok (wordSegment word)
  | c :: cs =>
    if c == '.' then andThen (wordSegment word) (tokensOutside [] cs)
    else if c == '[' then andThen (wordSegment word) (tokensInside [] cs)
    else tokensOutside (word ++ [c]) cs

/-- The segments of a text inside a bracket, where `content` is what was read of it. -/
def tokensInside (content : List Char) : List Char → Except TokenFault (List Segment)
  | [] => .error .openBracket
  | c :: cs =>
    if c == ']' then
      match bracketSegment content with
      | .ok s => andThen [s] (tokensOutside [] cs)
      | .error e => .error e
    else tokensInside (content ++ [c]) cs

end

/-- The segments of a text. -/
def tokens (cs : List Char) : Except TokenFault (List Segment) :=
  tokensOutside [] cs

/-- The error of a text without segments. -/
def TokenFault.toError (text : String) : TokenFault → Error
  | .openBracket => .malformed text .openBracket
  | .tooManyDigits count => .value (.integerTooLong (some count))

/-- The segments of a text, or the error that says what is wrong with it. -/
def tokenize (text : String) : Except Error (List Segment) :=
  match tokens text.toList with
  | .ok segments => .ok segments
  | .error e => .error (e.toError text)

/-- The characters of an expression without blanks and without the braces around it. -/
def unwrapChars (cs : List Char) : List Char :=
  let trimmed := trimChars cs
  match trimmed with
  | '$' :: '\x7b' :: rest =>
    -- without a brace at the end, the one in front belongs to a name
    if trimmed.getLast? == some '\x7d' then trimChars rest.dropLast else trimmed
  | _ => trimmed

/-- An expression without blanks and without the braces around it. -/
def unwrap (expression : String) : String :=
  String.ofList (unwrapChars expression.toList)

/-- The path of segments: two names that are not blank, and the steps behind them. -/
def ofSegments? : List Segment → Option Path
  | .key scope :: .key key :: segments =>
    if isBlankText scope || isBlankText key then none
    else some ⟨trim scope, trim key, segments⟩
  | _ => none

/-- The path of an expression. -/
def parse (expression : String) : Except Error Path :=
  if isBlankText expression then .error (.malformed expression .empty)
  else
    match tokenize (unwrap expression) with
    | .error e => .error e
    | .ok segments =>
      match ofSegments? segments with
      | some p => .ok p
      | none => .error (.malformed expression .noScopeAndKey)

/-- The path of an expression given as a value; null is the empty expression. -/
def ofValue (v : Value) : Except Error Path :=
  match v, v.asText? with
  | .null, _ => .error (.malformed "" .empty)
  | _, some s => parse s
  | .bytes _, none => .error (.kind (.bytesStart "str"))
  | .byteArray _, none => .error (.kind (.bytesStart "str"))
  | v, none => .error (.noMember v.typeName "strip")

end Path

end Runbook
