import Runbook.Calendar.Iso
import Runbook.Text.Case
import Runbook.Value.Text

/-!
# Coercion to declared types

The value that a configured value becomes for a parameter of a declared database type.

* `SqlKind.ofName?`: the kind of value a type name asks for; names are taken in any case.
* `SqlKind.convert`: the value of that kind, or why there is none.
* `coerce`: null stays null, and a value of an unknown type stays as it is.
-/

namespace Runbook

open Runbook.Text

/-- The kinds of values that declared types ask for. -/
inductive SqlKind
  | text
  | integer
  | numeric
  | float
  | boolean
  | date
  | timestamp
  deriving DecidableEq, Repr

namespace SqlKind

/-- The type names of every kind. -/
def names : List (SqlKind × List String) := [
  (.text, ["VARCHAR", "VARCHAR2", "NVARCHAR", "NVARCHAR2", "CHAR", "NCHAR", "CLOB", "NCLOB"]),
  (.integer, ["INT", "INTEGER", "BIGINT"]),
  (.numeric, ["NUMBER", "NUMERIC", "DECIMAL"]),
  (.float, ["FLOAT", "DOUBLE"]),
  (.boolean, ["BIT", "BOOLEAN"]),
  (.date, ["DATE"]),
  (.timestamp, ["DATETIME", "TIMESTAMP"])]

/-- The kind of a type name. -/
def ofName? (name : String) : Option SqlKind :=
  (names.find? fun k => k.2.contains (upper (trim name))).map (·.1)

/-- Bytes as characters to read a number from: bytes that no number holds become one character
that none holds. -/
def numberChars (bs : List UInt8) : String :=
  String.ofList (bs.map fun b =>
    if b.toNat < 0x80 && !(0x1C ≤ b.toNat && b.toNat < 0x20) then Char.ofNat b.toNat else '\x00')

/-- The most characters of a literal that the message of a malformed integer shows. -/
def shownLength : Nat := 200

/-- The integer of a text that is shown in the message if it is none. -/
def readInteger (source shown : String) : Except Error Value :=
  match Number.readInteger source with
  | .ok n => .ok (.int n)
  | .error (.tooManyDigits count) => .error (.value (.integerTooLong (some count)))
  | .error .malformed =>
    .error (.value (.notInteger (String.ofList (shown.toList.take shownLength))))

/-- The integer part of a number. -/
def integerOfFloat (x : Binary64) : Except Error Value :=
  match x, x.truncate? with
  | _, some n => .ok (.int n)
  | .nan, none => .error (.value (.nanToInteger "float NaN"))
  | _, none => .error (.overflow "cannot convert float infinity to integer")

/-- The integer part of a decimal. -/
def integerOfDecimal : Decimal → Except Error Value
  | .finite negative coefficient exponent =>
    .ok (.int (Decimal.truncate negative coefficient exponent).1)
  | .infinity _ => .error (.overflow "cannot convert Infinity to integer")
  | .nan .. => .error (.value (.nanToInteger "NaN"))

/-- The integer that a value stands for. -/
def toInteger (v : Value) : Except Error Value :=
  match v with
  | .bool b => .ok (.int (if b then 1 else 0))
  | .int n => .ok (.int n)
  | .float x => integerOfFloat x
  | .decimal d => integerOfDecimal d
  | .bytes bs => readInteger (numberChars bs) (quoteBytes (bs.take shownLength))
  | .byteArray bs => readInteger (numberChars bs) (quoteBytes (bs.take shownLength))
  | v =>
    match v.asText? with
    | some s => do readInteger s (← v.literal)
    | none =>
      .error (.kind (.notConvertible "int()" "a string, a bytes-like object or a real number"
        v.typeName))

/-- The floating point number of a text that is shown in the message if it is none. -/
def readFloat (source shown : String) : Except Error Value :=
  match Binary64.read? source with
  | some x => .ok (.float x)
  | none => .error (.value (.notFloat shown))

/-- The floating point number of an integer that is not too large. -/
def floatOfInteger (n : Int) : Except Error Value :=
  match Binary64.ofInt n with
  | .infinity _ => .error (.overflow "int too large to convert to float")
  | x => .ok (.float x)

/-- The floating point number that a value stands for. -/
def toFloat (v : Value) : Except Error Value :=
  match v with
  | .bool b => floatOfInteger (if b then 1 else 0)
  | .int n => floatOfInteger n
  | .float x => .ok (.float x)
  | .decimal (.nan _ true _) => .error (.value .signalingNan)
  | .decimal d => .ok (.float d.toBinary64)
  | .bytes bs => readFloat (numberChars bs) (quoteBytes bs)
  | .byteArray bs => do readFloat (numberChars bs) (← v.literal)
  | v =>
    match v.asText? with
    | some s => do readFloat s (← v.literal)
    | none =>
      .error (.kind (.notConvertible "float()" "a string or a real number" v.typeName))

/-- The decimal that the text of a value is. -/
def toNumeric (v : Value) : Except Error Value := do
  match Decimal.read? (← v.text) with
  | some d => return .decimal d
  | none => throw (.value (.notNumeric (← v.literal)))

/-- The texts that are true, in lower case. -/
def trueTexts : List String := ["1", "true", "yes", "y"]

/-- Whether a value is true: of texts some words are, of other values those that count as given. -/
def toBoolean (v : Value) : Bool :=
  match v.asText? with
  | some s => trueTexts.contains (lower (trim s))
  | none => v.isTruthy

/-- The error of a text that is no date or time. -/
def isoError (source : String) : IsoFault → Error
  | .form => .value (.notIso (quote source))
  | .range fault => .value (.calendar fault)
  | .offset total => .value (.offset total)

/-- The date that a value is, or that its text is. -/
def toDate (v : Value) : Except Error Value :=
  match v with
  | .date d => .ok (.date d)
  | .dateTime d => .ok (.dateTime d)
  | v => do
    let source ← v.text
    match Date.readIso source with
    | .ok d => return .date d
    | .error fault => throw (isoError source fault)

/-- The date and time that a value is, or that its text is. -/
def toTimestamp (v : Value) : Except Error Value :=
  match v with
  | .dateTime d => .ok (.dateTime d)
  | v => do
    let source ← v.text
    match DateTime.readIso source with
    | .ok d => return .dateTime d
    | .error fault => throw (isoError source fault)

/-- The value of a kind that a value becomes. -/
def convert (kind : SqlKind) (v : Value) : Except Error Value :=
  match kind with
  | .text => v.text.map .str
  | .integer => toInteger v
  | .numeric => toNumeric v
  | .float => toFloat v
  | .boolean => .ok (.bool (toBoolean v))
  | .date => toDate v
  | .timestamp => toTimestamp v

end SqlKind

/-- The value that a configured value becomes for a declared type. -/
def coerce (datatype v : Value) : Except Error Value :=
  match v with
  | .null => .ok .null
  | v =>
    if !datatype.isTruthy then .ok v
    else
      match datatype, datatype.asText? with
      | _, some name =>
        match SqlKind.ofName? name with
        | some kind => kind.convert v
        | none => .ok v
      -- bytes can be trimmed as text can, but only those that do not change can be looked up
      | .bytes _, none => .ok v
      | .byteArray _, none => .error (.kind (.notHashable "bytearray"))
      | datatype, none => .error (.noMember datatype.typeName "strip")

end Runbook
