import Runbook.Procedure.Coercion
import Runbook.Store
import Runbook.Value.Members

/-!
# Calls of stored procedures

What to call and with which parameters, and what came back.

* `Parameter.ofValue`: the parameter that a map describes.
* `Request.arguments`: the arguments of a call; parameters that only give a value back are null.
* `Response.collect`: the values that output parameters got, under their names and other names.
* `Response.publication`: what is written into a store, in order.
-/

namespace Runbook

open Runbook.Text

/-- Which way a parameter's value goes. -/
inductive Direction
  | input
  | output
  | both
  deriving DecidableEq, Repr

namespace Direction

/-- The name of a direction. -/
def name : Direction → String
  | .input => "IN"
  | .output => "OUT"
  | .both => "INOUT"

/-- The direction of a name. -/
def ofName? (s : String) : Option Direction :=
  [input, output, both].find? (·.name == s)

/-- Whether a value comes back. -/
def isOutput (d : Direction) : Bool :=
  d != .input

end Direction

/-- A parameter of a procedure. -/
structure Parameter where
  name : String
  direction : Direction
  datatype : Value
  value : Value
  otherName : Value

/-- The bytes without the blanks at either end. Bytes have fewer blanks than text. -/
def trimBytes (bs : List UInt8) : List UInt8 :=
  let isBlankByte := fun (b : UInt8) => (9 ≤ b.toNat && b.toNat ≤ 13) || b.toNat == 32
  ((bs.dropWhile isBlankByte).reverse.dropWhile isBlankByte).reverse

/-- Trimmed bytes as a literal, if any are left. -/
def givenBytes (literal : List UInt8 → String) (bs : List UInt8) : Option String :=
  let bs := trimBytes bs
  if bs.isEmpty then none else some (literal bs)

/-- The trimmed text of a value that counts as given, if it is not blank. Bytes can be trimmed too,
and their text is a literal. -/
def givenText (v : Value) : Except Error (Option String) :=
  if !v.isTruthy then .ok none
  else
    match v with
    | .bytes bs => .ok (givenBytes quoteBytes bs)
    | .byteArray bs => .ok (givenBytes quoteByteArray bs)
    | v =>
      match v.asText? with
      | some s => .ok (if isBlankText s then none else some (trim s))
      | none => .error (.noMember v.typeName "strip")

namespace Parameter

/-- A parameter's name without one leading `@`. -/
def plainName (name : String) : String :=
  match name.toList with
  | '@' :: rest => String.ofList rest
  | _ => name

/-- The name under which the value comes back. -/
def outputName (p : Parameter) : String := plainName p.name

/-- The name that an output parameter's own value is. -/
def valueName (p : Parameter) : Option String :=
  match p.direction, p.value.asText? with
  | .output, some s => if isBlankText s then none else some (trim s)
  | _, _ => none

/-- The other name under which the value comes back: the one given, or else, of a parameter that
only gives a value back, the text configured as its value. Bytes that can be changed are no name. -/
def outputAlias (p : Parameter) : Except Error (Option String) :=
  match givenText p.otherName, p.otherName with
  | .error e, _ => .error e
  | .ok (some _), .byteArray _ => .error (.kind (.notHashable "bytearray"))
  | .ok (some s), _ => .ok (some s)
  | .ok none, _ => .ok p.valueName

/-- The text that a direction is looked up by: trimmed and in upper case. -/
def directionText (v : Value) : Except Error String :=
  let raised := fun (bs : List UInt8) =>
    (trimBytes bs).map fun b => if 97 ≤ b.toNat && b.toNat ≤ 122 then b - 32 else b
  match v with
  | .bytes bs => .ok (quoteBytes (raised bs))
  | .byteArray bs => .ok (quoteByteArray (raised bs))
  | v =>
    match v.asText? with
    | some s => .ok (upper (trim s))
    | none => .error (.noMember v.typeName "strip")

/-- The direction that a value names. -/
def readDirection (name : String) (v : Value) : Except Error Direction :=
  match directionText v with
  | .error e => .error e
  | .ok given =>
    match Direction.ofName? given with
    | some d => .ok d
    | none => .error (.value (.paramDirection given name))

/-- The parameter that entries describe. -/
def ofMap (entries : Entries) : Except Error Parameter := do
  let given := entries.field "name"
  if !given.isTruthy then throw (.value .paramWithoutName)
  let name ← given.text
  let direction := ((entries.field "direction").orElse (entries.field "type")).orElse (.str "IN")
  return {
    name
    direction := ← readDirection name direction
    datatype := entries.field "datatype"
    value := entries.field "value"
    otherName := entries.field "alias" }

/-- The parameter that a map describes. -/
def ofValue (v : Value) : Except Error Parameter := do
  ofMap (← v.asMap "get")

/-- The argument for a parameter. -/
def argument (p : Parameter) : Except Error Value :=
  match p.direction with
  | .output => .ok .null
  | _ => coerce p.datatype p.value

end Parameter

/-- What to call, and with which parameters. -/
structure Request where
  name : String
  schema : Value
  params : List Parameter

namespace Request

/-- The name of the procedure, in its schema if one is given. -/
def qualifiedName (r : Request) : Except Error String :=
  match givenText r.schema with
  | .error e => .error e
  | .ok (some schema) => .ok (schema ++ "." ++ r.name)
  | .ok none => .ok r.name

/-- The arguments of the call. -/
def arguments (r : Request) : Except Error (List Value) :=
  r.params.mapM (·.argument)

end Request

/-- The kind of database that a value names: trimmed and in lower case, if it is given. -/
def databaseKind (v : Value) : Except Error (Option String) :=
  let lowered := fun (bs : List UInt8) =>
    (trimBytes bs).map fun b => if 65 ≤ b.toNat && b.toNat ≤ 90 then b + 32 else b
  if !v.isTruthy then .ok none
  else
    match v with
    | .bytes bs => .ok (some (quoteBytes (lowered bs)))
    | .byteArray bs => .ok (some (quoteByteArray (lowered bs)))
    | v =>
      match v.asText? with
      | some s => .ok (some (lower (trim s)))
      | none => .error (.noMember v.typeName "strip")

/-- What came back from a call. -/
structure Response where
  outputs : Entries
  sets : List (List Entries)
  updates : Int

namespace Response

/-- The output values of a call that gave values back for its parameters in order. Parameters
behind the last value get none. -/
def outputsOf : List Parameter → List Value → Entries → Except Error Entries
  | p :: params, v :: values, entries =>
    -- values come back for all parameters, also for those that only take one
    if !p.direction.isOutput then outputsOf params values entries
    else
      match p.outputAlias with
      | .error e => .error e
      | .ok other =>
        let named := entries.insert (.str p.outputName) v
        let named := match other with
          | some s => named.insert (.str s) v
          | none => named
        outputsOf params values named
  | _, _, entries => .ok entries

/-- The output values of what a call returned. -/
def collect (params : List Parameter) (returned : Value) : Except Error Entries :=
  match returned with
  | .null => .ok []
  | v => do outputsOf params (← v.items) []

/-- The output parameters that are also published under names of their own. -/
def responseNames : List (String × String) := [
  ("P_RESPONSEHEADER", "ResponseHeader"),
  ("P_RESPONSEBODY", "ResponseBody"),
  ("P_RESPONSECODE", "ResponseCode")]

/-- The output values published under names of their own; null ones are not. -/
def responses (outputs : Entries) : List (Value × Value) :=
  responseNames.filterMap fun (name, key) =>
    match outputs.field name with
    | .null => none
    | v => some (.str key, v)

/-- The result sets as a value. -/
def setsValue (r : Response) : Value :=
  .list (r.sets.map fun rows => .list (rows.map .dict))

/-- What is written into a store under the scope of a call, in order. -/
def publication (r : Response) : List (Value × Value) :=
  r.outputs ++ responses r.outputs ++
    [(.str "ResultSet", r.setsValue), (.str "UpdateCount", .int r.updates)]

end Response

namespace Store

/-- Writes keys of a scope one after another; an error ends the writing, with what was written
before it. -/
def setKeys (s : Store) (scope : Value) : List (Value × Value) → Except Error Unit × Store
  | [] => (.ok (), s)
  | (key, v) :: rest =>
    match s.setScoped scope key v with
    | .ok s => s.setKeys scope rest
    | .error e => (.error e, s)

end Store

end Runbook
