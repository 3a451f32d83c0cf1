import Runbook.Files.Utf8
import Runbook.Json.Reader
import Runbook.Xml.Reader

/-!
# Values from text

JSON and XML from a value that holds the text, as text or as bytes.

* `Value.parseJson`: the value of a JSON text.
* `Value.parseXml`: the document of an XML text.
-/

namespace Runbook.Value

/-- The text of bytes that are UTF-8. -/
def decodeBytes (bs : List UInt8) : Except Error (List Char) :=
  let d := Utf8.decode bs
  match d.fault with
  | some fault => .error (.encoding fault)
  | none => .ok d.chars

/-- The text without a byte order mark in front. -/
def dropMark (cs : List Char) : List Char :=
  match cs with
  | '\uFEFF' :: rest => rest
  | cs => cs

/-- The JSON value of a text; what is wrong with the text is named as invalid JSON. -/
def parseJsonText (cs : List Char) : Except Error Value :=
  match Json.parse cs with
  | .error (.json l) => .error (.value (.json (.located l)))
  | r => r

/-- The JSON value that a text or bytes hold. -/
def parseJson (v : Value) : Except Error Value :=
  match v with
  | .bytes bs => (decodeBytes bs).bind (parseJsonText <| dropMark ·)
  | .byteArray bs => (decodeBytes bs).bind (parseJsonText <| dropMark ·)
  | v =>
    match v.asText? with
    | some s => parseJsonText s.toList
    | none => .error (.value (.json (.notText v.typeName)))

/-- The XML document of a text. -/
def parseXmlText (s : String) : Except Error Value :=
  match Xml.Document.read? s with
  | some d => .ok (.document d)
  | none => .error (.value .xml)

/-- The XML document that a text or bytes hold. -/
def parseXml (v : Value) : Except Error Value :=
  match v with
  | .bytes bs =>
    match decodeBytes bs with
    | .ok cs => parseXmlText (String.ofList cs)
    | .error _ => .error (.value .xml)
  | v =>
    match v.asText? with
    | some s => parseXmlText s
    | none => .error (.value .xml)

end Runbook.Value
