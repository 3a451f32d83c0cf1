import Runbook.Error
import Runbook.Number.Shortest
import Runbook.Text.Quoted
import Runbook.Value.Basic

/-!
# Text of values

A value as text, and as the literal that stands for it inside the text of a list or a map.

* `Value.text`: text is itself, a list shows the literals of its items.
* `Value.literal`: text in quotes, dates and decimals by their constructors.

Only the text of an object can fail, and an integer with too many digits has none.
-/

namespace Runbook

open Runbook.Text

/-- The least number with more digits than integers are written with. -/
def tooLongInteger : Nat := Nat.pow 10 maxIntegerDigits

/-- The decimal text of an integer that is not too long. -/
def integerText (n : Int) : Except Error String :=
  if n.natAbs < tooLongInteger then .ok (intText n)
  else .error (.value (.integerTooLong none))

/-- The text of an object. -/
def ObjectText.get : ObjectText → Except Error String
  | .gives s => .ok s
  | .fails reason => .error (.failure reason)
  | .interrupts => .error .interrupt

/-- An offset as the constructor of a time zone. -/
def Offset.literal (o : Offset) : String :=
  if o.total = 0 then "datetime.timezone.utc"
  else "datetime.timezone(" ++ spanText o.total ++ ")"

/-- The parts of a time as arguments; seconds and microseconds only where they are needed. -/
def TimeOfDay.arguments (t : TimeOfDay) : List String :=
  let fine := if t.microsecond != 0 then [natText t.second, natText t.microsecond]
    else if t.second != 0 then [natText t.second] else []
  let zone := match t.offset with
    | some o => ["tzinfo=" ++ o.literal]
    | none => []
  [natText t.hour, natText t.minute] ++ fine ++ zone

/-- The parts of a date as arguments. -/
def Date.arguments (d : Date) : List String :=
  [natText d.year, natText d.month, natText d.day]

/-- A constructor applied to arguments. -/
def applied (name : String) (arguments : List String) : String :=
  name ++ "(" ++ ", ".intercalate arguments ++ ")"

/-- Items in round brackets; a single one is followed by a comma. -/
def tupleText (items : List String) : String :=
  match items with
  | [one] => "(" ++ one ++ ",)"
  | items => "(" ++ ", ".intercalate items ++ ")"

/-- Items in square brackets. -/
def listText (items : List String) : String :=
  "[" ++ ", ".intercalate items ++ "]"

/-- Entries in braces. -/
def dictText (entries : List (String × String)) : String :=
  "\x7b" ++ ", ".intercalate (entries.map fun e => e.1 ++ ": " ++ e.2) ++ "\x7d"

/-- A truth value as text. -/
def boolText (b : Bool) : String :=
  if b then "True" else "False"

namespace Value

mutual

/-- The literal of a value. -/
def literal : Value → Except Error String
  | .null => .ok "None"
  | .bool b => .ok (boolText b)
  | .int n => integerText n
  | .float x => .ok x.text
  | .decimal d => .ok ("Decimal('" ++ d.text ++ "')")
  | .str s => .ok (quote s)
  | .bytes bs => .ok (quoteBytes bs)
  | .byteArray bs => .ok (quoteByteArray bs)
  | .date d => .ok (applied "datetime.date" d.arguments)
  | .dateTime d => .ok (applied "datetime.datetime" (d.date.arguments ++ d.time.arguments))
  | .time t => .ok (applied "datetime.time" t.arguments)
  | .list items => (literals items).map listText
  | .tuple items => (literals items).map tupleText
  | .dict entries => (entryLiterals entries).map dictText
  | .mapping entries => (entryLiterals entries).map fun es => "mappingproxy(" ++ dictText es ++ ")"
  | .document _ => .ok "<_ElementTree>"
  | .rootElement d => .ok ("<Element " ++ d.name.tag ++ ">")
  | .object o => .ok o.label
  | .type name => .ok ("<class '" ++ name ++ "'>")
  | .policy p =>
    let name := match p with
      | .keepAsIs => "KEEP_AS_IS"
      | .replaceWithEmpty => "REPLACE_WITH_EMPTY"
      | .throwError => "THROW_ERROR"
    .ok ("<MissingVariablePolicy." ++ name ++ ": " ++ quote p.text ++ ">")

/-- The literals of items. -/
def literals : List Value → Except Error (List String)
  | [] => .ok []
  | v :: vs =>
    match v.literal with
    | .error e => .error e
    | .ok s => (literals vs).map (s :: ·)

/-- The literals of entries. -/
def entryLiterals : List (Value × Value) → Except Error (List (String × String))
  | [] => .ok []
  | (k, v) :: es =>
    match k.literal with
    | .error e => .error e
    | .ok s =>
      match v.literal with
      | .error e => .error e
      | .ok t => (entryLiterals es).map ((s, t) :: ·)

end

/-- The text of a value. -/
def text : Value → Except Error String
  | .str s => .ok s
  | .decimal d => .ok d.text
  | .date d => .ok d.text
  | .dateTime d => .ok (d.text " ")
  | .time t => .ok t.text
  | .mapping entries => (entryLiterals entries).map dictText
  | .object o => o.text.get
  | .policy p =>
    .ok (match p with
      | .keepAsIs => "MissingVariablePolicy.KEEP_AS_IS"
      | .replaceWithEmpty => "MissingVariablePolicy.REPLACE_WITH_EMPTY"
      | .throwError => "MissingVariablePolicy.THROW_ERROR")
  | v => v.literal

end Value

end Runbook
