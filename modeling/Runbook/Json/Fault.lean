import Runbook.Text.Digit

/-!
# Faults of JSON text

What can be wrong with JSON text, and where. Places are counted in characters from zero, lines
from one by their line feeds.

* `locate`: the place in a text where so much of it is left.
-/

namespace Runbook.Json

open Runbook.Text

/-- What is wrong at a place of a JSON text. -/
inductive Problem
  | missingValue
  | missingName
  | missingColon
  | missingComma
  | openString
  | controlCharacter
  | badEscape
  | badCodeEscape
  | extraData
  | byteOrderMark
  deriving DecidableEq, Repr

/-- What to say about a problem. -/
def Problem.message : Problem → String
  | .missingValue => "Expecting value"
  | .missingName => "Expecting property name enclosed in double quotes"
  | .missingColon => "Expecting ':' delimiter"
  | .missingComma => "Expecting ',' delimiter"
  | .openString => "Unterminated string starting at"
  | .controlCharacter => "Invalid control character at"
  | .badEscape => "Invalid \\escape"
  | .badCodeEscape => "Invalid \\uXXXX escape"
  | .extraData => "Extra data"
  | .byteOrderMark => "Unexpected UTF-8 BOM (decode using utf-8-sig)"

/-- A problem with its place. -/
structure Located where
  problem : Problem
  line : Nat
  column : Nat
  offset : Nat
  deriving DecidableEq, Repr

/-- The problem and its place in words. -/
def Located.message (l : Located) : String :=
  l.problem.message ++ ": line " ++ natText l.line ++ " column " ++ natText l.column ++
    " (char " ++ natText l.offset ++ ")"

/-- A problem where `rest` of the text is left. -/
def locate (problem : Problem) (text rest : List Char) : Located :=
  let offset := text.length - rest.length
  let before := text.take offset
  let line := 1 + before.count '\n'
  let column := 1 + (before.reverse.takeWhile (· != '\n')).length
  ⟨problem, line, column, offset⟩

end Runbook.Json
