import Runbook.Xml.Tree
import Runbook.Text.Digit

/-!
# Namespaces of XML

Which namespace a qualifier stands for inside an element, and which declarations are allowed.

* `Scope.declare?`: the scope with one more declaration, if it is allowed.
* `Scope.resolve?`: the expanded name; a qualifier without declaration has none.
-/

namespace Runbook.Xml

/-- A name as written: the part before the colon, if there is one, and the part behind. -/
structure RawName where
  qualifier : Option String
  label : String
  deriving DecidableEq, Repr

/-- The namespace of names qualified by `xml`. -/
def xmlSpace : String := "http://www.w3.org/XML/1998/namespace"

/-- The namespace that declarations themselves belong to. -/
def declarationSpace : String := "http://www.w3.org/2000/xmlns/"

/-- The declarations in force, innermost first. -/
abbrev Scope := List (Option String × String)

namespace Scope

/-- The scope of a document. -/
def initial : Scope := [(some "xml", xmlSpace)]

/-- The printable characters that may not stand in a namespace name. -/
def excludedFromUri : List Char := ['"', '<', '>', '\\', '^', '\x60', '\x7b', '|', '\x7d']

/-- A character that may stand in a namespace name. -/
def isUriChar (c : Char) : Bool :=
  let n := c.toNat
  0x21 ≤ n && n < 0x7F && !excludedFromUri.contains c

/-- A hexadecimal digit. -/
def isHexDigit (c : Char) : Bool :=
  Text.isAsciiDigit c || ('a' ≤ c && c ≤ 'f') || ('A' ≤ c && c ≤ 'F')

/-- Whether each percent sign stands before two hexadecimal digits. -/
def percentsPaired : List Char → Bool
  | '%' :: a :: b :: cs => isHexDigit a && isHexDigit b && percentsPaired cs
  | '%' :: _ => false
  | _ :: cs => percentsPaired cs
  | [] => true

/-- A text that may be a namespace name. -/
def isUri (s : String) : Bool :=
  s.toList.all isUriChar && percentsPaired s.toList

/-- Whether an attribute declares a namespace. -/
def isDeclaration (n : RawName) : Bool :=
  n.qualifier == some "xmlns" || (n.qualifier == none && n.label == "xmlns")

/-- The scope with a declaration added, if the declaration is allowed. -/
def declare? (scope : Scope) (n : RawName) (uri : String) : Option Scope :=
  if uri == declarationSpace then none
  else if n.qualifier == none then
    if uri == xmlSpace || !isUri uri then none else some ((none, uri) :: scope)
  else if n.label == "xmlns" then none
  else if n.label == "xml" then (if uri == xmlSpace then some scope else none)
  else if uri == xmlSpace || uri == "" || !isUri uri then none
  else some ((some n.label, uri) :: scope)

/-- The namespace that a qualifier stands for. -/
def lookup? (scope : Scope) (qualifier : Option String) : Option String :=
  (scope.find? (·.1 == qualifier)).map (·.2)

/-- The expanded name of an element. -/
def resolve? (scope : Scope) (n : RawName) : Option Name :=
  match n.qualifier, lookup? scope n.qualifier with
  | none, some uri => some ⟨if uri == "" then none else some uri, n.label⟩
  | none, none => some ⟨none, n.label⟩
  | some _, some uri => some ⟨some uri, n.label⟩
  | some _, none => none

/-- The expanded name of an attribute; without a qualifier it has no namespace. -/
def resolveAttribute? (scope : Scope) (n : RawName) : Option Name :=
  match n.qualifier with
  | none => some ⟨none, n.label⟩
  | some _ => resolve? scope n

end Scope

end Runbook.Xml
