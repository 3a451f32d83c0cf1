import Runbook.Number.Binary64
import Runbook.Xml.Namespace

/-!
# XPath expressions

The syntax of XPath 1.0. A name test keeps its qualifier, because what it stands for is only asked
when the step is taken.
-/

namespace Runbook.Xml.XPath

/-- The direction of a step. -/
inductive Axis
  | ancestor
  | ancestorOrSelf
  | attribute
  | child
  | descendant
  | descendantOrSelf
  | following
  | followingSibling
  | namespaces
  | parent
  | preceding
  | precedingSibling
  | self
  deriving DecidableEq, Repr

/-- The axis of a name. -/
def Axis.ofName? (name : String) : Option Axis :=
  match name with
  | "ancestor" => some .ancestor
  | "ancestor-or-self" => some .ancestorOrSelf
  | "attribute" => some .attribute
  | "child" => some .child
  | "descendant" => some .descendant
  | "descendant-or-self" => some .descendantOrSelf
  | "following" => some .following
  | "following-sibling" => some .followingSibling
  | "namespace" => some .namespaces
  | "parent" => some .parent
  | "preceding" => some .preceding
  | "preceding-sibling" => some .precedingSibling
  | "self" => some .self
  | _ => none

/-- What a step accepts of its axis. -/
inductive NodeTest
  | name (n : RawName)
  | any
  | anyIn (qualifier : String)
  | node
  | text
  | comment
  | instruction (target : Option String)
  deriving DecidableEq, Repr

/-- A step: where to look, what to accept, and which of it to keep. -/
structure PathStep (ε : Type) where
  axis : Axis
  test : NodeTest
  predicates : List ε
  deriving Repr

/-- The operators between two operands. -/
inductive BinaryOp
  | or
  | and
  | equal
  | notEqual
  | less
  | lessEqual
  | greater
  | greaterEqual
  | add
  | sub
  | mul
  | div
  | mod
  deriving DecidableEq, Repr

/-- An expression. -/
inductive Expr
  | number (x : Binary64)
  | literal (s : String)
  | variable (name : String)
  | binary (op : BinaryOp) (a b : Expr)
  | negate (a : Expr)
  | union (a b : Expr)
  | path (absolute : Bool) (steps : List (PathStep Expr))
  | filter (base : Expr) (predicates : List Expr) (steps : List (PathStep Expr))
  | call (name : RawName) (arguments : List Expr)
  deriving Repr

end Runbook.Xml.XPath
