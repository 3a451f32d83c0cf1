import Runbook.Json.Reader
import Runbook.Value.Text

/-!
# Writing JSON

Values as JSON text. What JSON has no form for is written as a number or a string: an integral
decimal as an integer, another finite decimal as a binary64, and everything else as the string of
its text. A map that is no dictionary is such a string too: that of its own JSON text.

* `compact`: without white space, characters as they are.
* `indented`: two spaces for each level, characters outside ASCII by their codes, as pieces that
  are written one after another until one fails.
* `Value.stringify`: the text of a value in templates: JSON for maps and lists.
-/

namespace Runbook

open Runbook.Text

/-- What an XML document looks like in text. -/
def xmlMarker : String := "[XML Document]"

namespace Json

/-- The JSON form of a binary64 number. -/
def floatText : Binary64 → String
  | .nan => "NaN"
  | .infinity negative => if negative then "-Infinity" else "Infinity"
  | .finite negative mantissa exponent => Binary64.finiteText negative mantissa exponent

/-- A code unit behind a backslash. -/
def unitEscape (n : Nat) : List Char :=
  '\\' :: 'u' :: hexDigits 4 n

/-- A character that both layouts escape. -/
def escape? (c : Char) : Option (List Char) :=
  if c == '"' || c == '\\' then some ['\\', c]
  else if c == '\n' then some ['\\', 'n']
  else if c == '\r' then some ['\\', 'r']
  else if c == '\t' then some ['\\', 't']
  else if c == '\x08' then some ['\\', 'b']
  else if c == '\x0c' then some ['\\', 'f']
  else if c.toNat < 0x20 then some (unitEscape c.toNat)
  else none

/-- A character of a string, as it is where it can be. -/
def plainChar (c : Char) : List Char :=
  (escape? c).getD [c]

/-- A character of a string in ASCII: beyond the basic plane by its two surrogates. -/
def asciiChar (c : Char) : List Char :=
  let n := c.toNat
  match escape? c with
  | some cs => cs
  | none =>
    if n < 0x7F then [c]
    else if n < 0x10000 then unitEscape n
    else
      let m := n - 0x10000
      unitEscape (0xD800 + m / 1024) ++ unitEscape (0xDC00 + m % 1024)

/-- A string in quotes. -/
def quoted (write : Char → List Char) (s : List Char) : List Char :=
  '"' :: s.flatMap write ++ ['"']

/-- The text of a key, or the error of a value that cannot be one. -/
def keyText (k : Value) : Except Error String :=
  match k with
  | .null => .ok "null"
  | .bool b => .ok (if b then "true" else "false")
  | .int n => integerText n
  | .float x => .ok (floatText x)
  | k =>
    match k.asText? with
    | some s => .ok s
    | none => .error (.kind (.keyNotText k.typeName))

/-- The JSON form of a decimal. -/
def decimalText (d : Decimal) : Except Error String :=
  match d.integer? with
  | some n => integerText n
  | none => .ok (floatText d.toBinary64)

/-- Items joined by commas. -/
def joinItems (open_ : Char) (items : List (List Char)) (close : Char) : List Char :=
  open_ :: [','].intercalate items ++ [close]

/-- A member of an object. -/
def member (name value : List Char) : List Char :=
  quoted plainChar name ++ ':' :: value

mutual

/-- The compact JSON text of a value. -/
def compact : Value → Except Error (List Char)
  | .null => .ok "null".toList
  | .bool b => .ok (if b then "true" else "false").toList
  | .int n => (integerText n).map (·.toList)
  | .float x => .ok (floatText x).toList
  | .str s => .ok (quoted plainChar s.toList)
  | .policy p => .ok (quoted plainChar p.text.toList)
  | .list items => (compactItems items).map fun cs => joinItems '[' cs ']'
  | .tuple items => (compactItems items).map fun cs => joinItems '[' cs ']'
  | .dict entries => (compactMembers entries).map fun cs => joinItems '\x7b' cs '\x7d'
  | .mapping entries =>
    (compactMembers entries).map fun cs => quoted plainChar (joinItems '\x7b' cs '\x7d')
  | .decimal d =>
    if d.isFinite then (decimalText d).map (·.toList) else .ok (quoted plainChar d.text.toList)
  | .document _ => .ok (quoted plainChar xmlMarker.toList)
  | .rootElement _ => .ok (quoted plainChar xmlMarker.toList)
  | v => v.text.map fun s => quoted plainChar s.toList

/-- The compact texts of items. -/
def compactItems : List Value → Except Error (List (List Char))
  | [] => .ok []
  | v :: vs =>
    match compact v with
    | .error e => .error e
    | .ok cs =>
      match compactItems vs with
      | .error e => .error e
      | .ok css => .ok (cs :: css)

/-- The compact texts of members. -/
def compactMembers : List (Value × Value) → Except Error (List (List Char))
  | [] => .ok []
  | (k, v) :: es =>
    match keyText k with
    | .error e => .error e
    | .ok name =>
      match compact v with
      | .error e => .error e
      | .ok cs =>
        match compactMembers es with
        | .error e => .error e
        | .ok css => .ok (member name.toList cs :: css)

end

end Json

/-- The compact JSON text of a value. -/
def Value.toJson (v : Value) : Except Error String :=
  (Json.compact v).map String.ofList

/-- The text of a value in templates. -/
def Value.stringify : Value → Except Error String
  | .null => .ok ""
  | .bool b => .ok (if b then "true" else "false")
  | .str s => .ok s
  | .policy p => .ok p.text
  | .document _ => .ok xmlMarker
  | .rootElement _ => .ok xmlMarker
  | .mapping entries => (Value.dict entries).toJson
  | .dict entries => (Value.dict entries).toJson
  | .list items => (Value.list items).toJson
  | .tuple items => (Value.tuple items).toJson
  | v => v.text

/-- What stands for a value that JSON has no form for: a number for a finite decimal, else text. -/
def Value.jsonDefault (v : Value) : Except Error Value :=
  match v with
  | .decimal d =>
    if d.isFinite then
      match d.integer? with
      | some n => .ok (.int n)
      | none => .ok (.float d.toBinary64)
    else .ok (.str d.text)
  | v => v.stringify.map .str

namespace Json

/-- Text written so far, and the error that stopped the writing if one did. -/
structure Output where
  chars : List Char
  failure : Option Error

namespace Output

/-- Written text. -/
def text (cs : List Char) : Output := ⟨cs, none⟩

/-- Nothing written, because of an error. -/
def stop (e : Error) : Output := ⟨[], some e⟩

/-- Text that may not come about. -/
def ofExcept : Except Error String → Output
  | .ok s => text s.toList
  | .error e => stop e

/-- One output after another, unless the first was stopped. -/
def append (a b : Output) : Output :=
  match a.failure with
  | some _ => a
  | none => ⟨a.chars ++ b.chars, b.failure⟩

instance : Append Output := ⟨append⟩

/-- Text in front of an output, written only together with it. -/
def behind (cs : List Char) (o : Output) : Output :=
  match o.failure with
  | some _ => o
  | none => ⟨cs ++ o.chars, none⟩

end Output

/-- The start of a line at a level. -/
def lineStart (level : Nat) : List Char :=
  '\n' :: List.replicate (2 * level) ' '

/-- The text of a value written in one piece, if it has no items of its own. -/
def piece? : Value → Option Output
  | .null => some (.text "null".toList)
  | .bool b => some (.text (if b then "true" else "false").toList)
  | .int n => some (.ofExcept (integerText n))
  | .float x => some (.text (floatText x).toList)
  | .str s => some (.text (quoted asciiChar s.toList))
  | .policy p => some (.text (quoted asciiChar p.text.toList))
  | _ => none

mutual

/-- The indented JSON text of a value at a level. -/
def indented (level : Nat) : Value → Output
  | .list items =>
    if items.isEmpty then .text ['[', ']']
    else indentedItems (level + 1) '[' items ++ .text (lineStart level ++ [']'])
  | .tuple items =>
    if items.isEmpty then .text ['[', ']']
    else indentedItems (level + 1) '[' items ++ .text (lineStart level ++ [']'])
  | .dict entries =>
    if entries.isEmpty then .text ['\x7b', '\x7d']
    else .text ('\x7b' :: lineStart (level + 1)) ++ indentedMembers (level + 1) [] entries ++
      .text (lineStart level ++ ['\x7d'])
  | v =>
    match piece? v with
    | some o => o
    | none =>
      match v.jsonDefault with
      | .ok w => (piece? w).getD (.text [])
      | .error e => .stop e

/-- The items of a list behind the mark in front of the first; the others follow commas. -/
def indentedItems (level : Nat) (mark : Char) : List Value → Output
  | [] => .text []
  | v :: vs =>
    let front := mark :: lineStart level
    let item := match piece? v with
      | some o => o.behind front
      | none => .text front ++ indented level v
    item ++ indentedItems level ',' vs

/-- The members of an object behind the text in front of the first; the others follow commas. -/
def indentedMembers (level : Nat) (front : List Char) : List (Value × Value) → Output
  | [] => .text []
  | (k, v) :: es =>
    match keyText k with
    | .error e => .stop e
    | .ok name =>
      .text (front ++ quoted asciiChar name.toList ++ [':', ' ']) ++ indented level v ++
        indentedMembers level (',' :: lineStart level) es

end

end Json

end Runbook
