import Runbook.Number.Shortest
import Runbook.Number.Reading
import Runbook.Xml.Characters
import Runbook.Xml.Index
import Runbook.Xml.XPath.Reader

/-!
# Evaluating XPath

The value of an expression at a node of a document. Node sets are lists of places in document
order.

* `Expr.evaluate`: the value of an expression in a context; unknown qualifiers, functions and
  variables, and node sets asked for where there is none, have no value.
* `select?`: the nodes that a query text selects from a place.
-/

namespace Runbook.Xml.XPath

open Runbook.Text

/-- The value of an expression. -/
inductive Result
  | nodes (places : List Nat)
  | boolean (b : Bool)
  | number (x : Binary64)
  | string (s : String)

/-- The node an expression is asked about, its position among its fellows, and their number. -/
structure Context where
  node : Nat
  position : Nat
  size : Nat

/-- The number that a text writes, or NaN. -/
def numberOfText (s : String) : Binary64 :=
  let trimmed := (skipSpace (skipSpace s.toList).reverse).reverse
  let (negative, body) := match trimmed with
    | '-' :: rest => (true, rest)
    | cs => (false, cs)
  match readNumber? body with
  | some (x, []) => if negative then x.negate else x
  | _ => .nan

/-- The text of a number: integers without a point, others with fifteen digits at most. -/
def textOfNumber (x : Binary64) : String :=
  match x with
  | .nan => "NaN"
  | .infinity negative => if negative then "-Infinity" else "Infinity"
  | .finite .. =>
    match x.toRatio? with
    | some (n, d) =>
      if n % d == 0 then intText (n / d)
      else
        let whole := (digitsOfNat (n.natAbs / d)).length
        let cs := (x.fixedText (15 - whole)).toList
        String.ofList (cs.reverse.dropWhile (· == '0')).reverse
    | none => "NaN"

namespace Result

/-- The value as a text: of nodes, the text of the first. -/
def toText (t : Index) : Result → String
  | .nodes [] => ""
  | .nodes (i :: _) => t.textAt i
  | .boolean b => if b then "true" else "false"
  | .number x => textOfNumber x
  | .string s => s

/-- The value as a number. -/
def toNumber (t : Index) : Result → Binary64
  | .boolean b => .ofInt (if b then 1 else 0)
  | .number x => x
  | r => numberOfText (r.toText t)

/-- The value as a truth value. -/
def toBool : Result → Bool
  | .nodes places => !places.isEmpty
  | .boolean b => b
  | .number x => !(x.same (.zero false)) && x != .nan
  | .string s => s != ""

end Result

/-- The places an axis leads to, nearest first. -/
def Axis.places (t : Index) (i : Nat) : Axis → List Nat
  | .self => [i]
  | .child => if t.isAttribute i then [] else (t.below i).filter fun j => t.parentOf? j == some i
  | .descendant => t.below i
  | .descendantOrSelf => i :: t.below i
  | .parent => (t.parentOf? i).toList
  | .ancestor => ((List.range i).filter fun j => i < t.endOf j && !t.isAttribute j).reverse
  | .ancestorOrSelf =>
    i :: ((List.range i).filter fun j => i < t.endOf j && !t.isAttribute j).reverse
  | .attribute =>
    ((List.range (t.endOf i)).drop (i + 1)).filter fun j =>
      t.isAttribute j && t.parentOf? j == some i
  | .following =>
    let start := if t.isAttribute i then t.endOf ((t.parentOf? i).getD 0) else t.endOf i
    ((List.range t.size).drop start).filter (!t.isAttribute ·)
  | .preceding =>
    let stop := if t.isAttribute i then (t.parentOf? i).getD 0 else i
    ((List.range stop).filter fun j => t.endOf j ≤ stop && !t.isAttribute j).reverse
  | .followingSibling =>
    if t.isAttribute i then []
    else ((List.range t.size).drop (t.endOf i)).filter fun j =>
      !t.isAttribute j && t.parentOf? j == t.parentOf? i
  | .precedingSibling =>
    if t.isAttribute i then []
    else ((List.range i).filter fun j =>
      !t.isAttribute j && j != 0 && t.parentOf? j == t.parentOf? i).reverse
  | .namespaces => []

/-- The namespace that a qualifier of a query stands for: only `xml` is declared. -/
def qualifierSpace? (qualifier : String) : Option String :=
  if qualifier == "xml" then some xmlSpace else none

/-- Whether a name has the label and the namespace. -/
def nameMatches (n : Name) (space : Option String) (label : String) : Bool :=
  n.label == label && n.space == space

/-- Whether a node is one that a name test on an axis can find, and its name passes a check. -/
def namedAt (axis : Axis) (t : Index) (check : Name → Bool) (i : Nat) : Bool :=
  match t.contentAt i with
  | .element n => axis != .attribute && check n
  | .attribute n _ => axis == .attribute && check n
  | _ => false

/-- Whether a node is text. -/
def isTextAt (t : Index) (i : Nat) : Bool :=
  match t.contentAt i with
  | .text _ => true
  | _ => false

/-- Whether a node is a comment. -/
def isCommentAt (t : Index) (i : Nat) : Bool :=
  match t.contentAt i with
  | .comment _ => true
  | _ => false

/-- Whether a node is an instruction, with the target if one is asked for. -/
def isInstructionAt (target : Option String) (t : Index) (i : Nat) : Bool :=
  match t.contentAt i with
  | .instruction name _ => target.isNone || target == some name
  | _ => false

/-- Whether a node is one of the kinds that queries know; references to entities are not. -/
def isNodeAt (t : Index) (i : Nat) : Bool :=
  match t.contentAt i with
  | .reference _ => false
  | _ => true

/-- The test of a step as a predicate on places; an unknown qualifier gives none. -/
def NodeTest.accepts? (axis : Axis) (t : Index) (test : NodeTest) : Option (Nat → Bool) :=
  match test with
  | .name ⟨none, label⟩ => some (namedAt axis t fun n => nameMatches n none label)
  | .name ⟨some q, label⟩ =>
    (qualifierSpace? q).map fun space => namedAt axis t fun n => nameMatches n (some space) label
  | .any => some (namedAt axis t fun _ => true)
  | .anyIn q => (qualifierSpace? q).map fun space => namedAt axis t fun n => n.space == some space
  | .node => some (isNodeAt t)
  | .text => some (isTextAt t)
  | .comment => some (isCommentAt t)
  | .instruction target => some (isInstructionAt target t)

/-- Places in document order, each once. -/
def inOrder (places : List Nat) : List Nat :=
  (places.mergeSort (· ≤ ·)).eraseDups

/-- The order of two numbers under a comparison. -/
def compareNumbers (op : BinaryOp) (x y : Binary64) : Bool :=
  match op with
  | .equal => x.same y
  | .notEqual => !x.same y
  | .less => x.less y
  | .lessEqual => x.less y || x.same y
  | .greater => y.less x
  | .greaterEqual => y.less x || x.same y
  | _ => false

/-- Whether two texts are as a comparison asks; an order compares them as numbers. -/
def compareTexts (op : BinaryOp) (a b : String) : Bool :=
  match op with
  | .equal => a == b
  | .notEqual => a != b
  | _ => compareNumbers op (numberOfText a) (numberOfText b)

/-- Whether two values, neither of them nodes, are as a comparison asks. -/
def compareSimple (t : Index) (op : BinaryOp) (a b : Result) : Bool :=
  let byNumber := compareNumbers op (a.toNumber t) (b.toNumber t)
  match op, a, b with
  | .equal, .boolean _, _ => a.toBool == b.toBool
  | .equal, _, .boolean _ => a.toBool == b.toBool
  | .notEqual, .boolean _, _ => a.toBool != b.toBool
  | .notEqual, _, .boolean _ => a.toBool != b.toBool
  | .equal, .string x, .string y => x == y
  | .notEqual, .string x, .string y => x != y
  | _, _, _ => byNumber

/-- Whether two values are as a comparison asks; of nodes, whether some of them are. -/
def compare (t : Index) (op : BinaryOp) (a b : Result) : Bool :=
  match a, b with
  | .nodes xs, .nodes ys =>
    xs.any fun i => ys.any fun j => compareTexts op (t.textAt i) (t.textAt j)
  | .nodes _, .boolean _ => compareSimple t op (.boolean a.toBool) b
  | .boolean _, .nodes _ => compareSimple t op a (.boolean b.toBool)
  | .nodes xs, .number y => xs.any fun i => compareNumbers op (numberOfText (t.textAt i)) y
  | .number x, .nodes ys => ys.any fun j => compareNumbers op x (numberOfText (t.textAt j))
  | .nodes xs, .string y => xs.any fun i => compareTexts op (t.textAt i) y
  | .string x, .nodes ys => ys.any fun j => compareTexts op x (t.textAt j)
  | _, _ => compareSimple t op a b

/-- The value of an operator on two values. -/
def BinaryOp.apply (t : Index) (op : BinaryOp) (a b : Result) : Result :=
  match op with
  | .or => .boolean (a.toBool || b.toBool)
  | .and => .boolean (a.toBool && b.toBool)
  | .add => .number ((a.toNumber t).add (b.toNumber t))
  | .sub => .number ((a.toNumber t).sub (b.toNumber t))
  | .mul => .number ((a.toNumber t).mul (b.toNumber t))
  | .div => .number ((a.toNumber t).div (b.toNumber t))
  | .mod => .number ((a.toNumber t).truncMod (b.toNumber t))
  | _ => .boolean (compare t op a b)

/-- The nearest integral number, halves upward. -/
def roundHalfUp (x : Binary64) : Binary64 :=
  match x with
  | .finite s .. =>
    let r := (x.add (.ofRatio false 1 2)).floor
    if r.same (.zero false) then .zero s else r
  | _ => x

/-- Where a text begins inside another: the text before it and the text behind it. -/
def cutAt? (needle s : String) : Option (String × String) :=
  (splitAtWord? needle.toList s.toList).map fun (a, b) => (String.ofList a, String.ofList b)

/-- Whether a text begins with another. -/
def beginsWith (s needle : String) : Bool :=
  (afterWord? needle.toList s.toList).isSome

/-- Text with single spaces between its words. -/
def normalizeSpace (s : String) : String :=
  let words := (s.toList.splitOnP isSpace).filter (!·.isEmpty)
  String.ofList ([' '].intercalate words)

/-- A text with characters replaced by others, or dropped where there is none for them. -/
def replaceChars (s old new : String) : String :=
  String.ofList (s.toList.filterMap fun c =>
    match old.toList.findIdx? (· == c) with
    | some i => new.toList[i]?
    | none => some c)

/-- The characters of a text whose positions lie between two numbers. -/
def substring (s : String) (start : Binary64) (length : Option Binary64) : String :=
  let first := roundHalfUp start
  let keeps := fun (n : Nat) =>
    let p := Binary64.ofInt (n + 1)
    let before := match length with
      | some l => p.less (first.add (roundHalfUp l))
      | none => true
    !p.less first && first != .nan && before
  String.ofList ((s.toList.zipIdx.filter fun (_, n) => keeps n).map (·.1))

/-- The expanded name of a node. -/
def nameAt (t : Index) (i : Nat) : Option Name :=
  match t.contentAt i with
  | .element n => some n
  | .attribute n _ => some n
  | .instruction target _ => some ⟨none, target⟩
  | _ => none

/-- The value of a function on its arguments. -/
def callFunction? (t : Index) (c : Context) (name : String) (args : List Result) :
    Option Result :=
  let here : Result := .nodes [c.node]
  let text := fun (r : Result) => r.toText t
  let ofNode := fun (r : Result) (f : Name → String) => match r with
    | .nodes [] => some (.string "")
    | .nodes (i :: _) => some (.string (((nameAt t i).map f).getD ""))
    | _ => none
  match name, args with
  | "last", [] => some (.number (.ofInt c.size))
  | "position", [] => some (.number (.ofInt c.position))
  | "count", [.nodes places] => some (.number (.ofInt places.length))
  | "id", [_] => some (.nodes [])
  | "local-name", [] => ofNode here (·.label)
  | "local-name", [r] => ofNode r (·.label)
  | "namespace-uri", [] => ofNode here (·.space.getD "")
  | "namespace-uri", [r] => ofNode r (·.space.getD "")
  | "name", [] => ofNode here (·.label)
  | "name", [r] => ofNode r (·.label)
  | "string", [] => some (.string (text here))
  | "string", [r] => some (.string (text r))
  | "concat", a :: b :: more => some (.string (String.join ((a :: b :: more).map text)))
  | "starts-with", [a, b] => some (.boolean (beginsWith (text a) (text b)))
  | "contains", [a, b] => some (.boolean (cutAt? (text b) (text a)).isSome)
  | "substring-before", [a, b] => some (.string (((cutAt? (text b) (text a)).map (·.1)).getD ""))
  | "substring-after", [a, b] => some (.string (((cutAt? (text b) (text a)).map (·.2)).getD ""))
  | "substring", [a, b] => some (.string (substring (text a) (b.toNumber t) none))
  | "substring", [a, b, l] =>
    some (.string (substring (text a) (b.toNumber t) (some (l.toNumber t))))
  | "string-length", [] => some (.number (.ofInt (text here).length))
  | "string-length", [r] => some (.number (.ofInt (text r).length))
  | "normalize-space", [] => some (.string (normalizeSpace (text here)))
  | "normalize-space", [r] => some (.string (normalizeSpace (text r)))
  | "translate", [a, b, r] => some (.string (replaceChars (text a) (text b) (text r)))
  | "boolean", [r] => some (.boolean r.toBool)
  | "not", [r] => some (.boolean (!r.toBool))
  | "true", [] => some (.boolean true)
  | "false", [] => some (.boolean false)
  | "lang", [_] => some (.boolean false)
  | "number", [] => some (.number (here.toNumber t))
  | "number", [r] => some (.number (r.toNumber t))
  | "sum", [.nodes places] =>
    some (.number (places.foldl (fun s i => s.add (numberOfText (t.textAt i))) (.zero false)))
  | "floor", [r] => some (.number (r.toNumber t).floor)
  | "ceiling", [r] => some (.number (r.toNumber t).negate.floor.negate)
  | "round", [r] => some (.number (roundHalfUp (r.toNumber t)))
  | _, _ => none

/-- Whether a predicate's value keeps the node at a position. -/
def keepsPosition (r : Result) (position : Nat) : Bool :=
  match r with
  | .number x => x.same (.ofInt position)
  | r => r.toBool

mutual

/-- The value of an expression in a context. -/
def Expr.evaluate (t : Index) (c : Context) : Expr → Option Result
  | .number x => some (.number x)
  | .literal s => some (.string s)
  | .variable _ => none
  | .binary op a b =>
    match a.evaluate t c with
    | none => none
    | some x =>
      match op, x.toBool with
      | .or, true => some (.boolean true)
      | .and, false => some (.boolean false)
      | _, _ => (b.evaluate t c).map (op.apply t x)
  | .negate a => (a.evaluate t c).map fun x => .number (x.toNumber t).negate
  | .union a b =>
    match a.evaluate t c, b.evaluate t c with
    | some (.nodes xs), some (.nodes ys) => some (.nodes (inOrder (xs ++ ys)))
    | _, _ => none
  | .path absolute steps =>
    (takeSteps t steps [if absolute then 0 else c.node]).map .nodes
  | .filter base predicates steps =>
    match base.evaluate t c with
    | some (.nodes places) =>
      match filterPlaces t predicates places with
      | some kept => (takeSteps t steps kept).map .nodes
      | none => none
    | some r => if predicates.isEmpty && steps.isEmpty then some r else none
    | none => none
  | .call name args =>
    if name.qualifier.isSome then none
    else
      match evaluateAll t c args with
      | some rs => callFunction? t c name.label rs
      | none => none

/-- The values of arguments. -/
def evaluateAll (t : Index) (c : Context) : List Expr → Option (List Result)
  | [] => some []
  | e :: es =>
    match e.evaluate t c, evaluateAll t c es with
    | some r, some rs => some (r :: rs)
    | _, _ => none

/-- The places that steps lead to from places. -/
def takeSteps (t : Index) : List (PathStep Expr) → List Nat → Option (List Nat)
  | [], places => some places
  | ⟨axis, test, predicates⟩ :: steps, places =>
    match test.accepts? axis t with
    | none => none
    | some accepts =>
      let next := places.mapM fun i =>
        filterPlaces t predicates ((axis.places t i).filter accepts)
      match next with
      | some found => takeSteps t steps (inOrder found.flatten)
      | none => none

/-- The places that all predicates keep, positions counted anew for each. -/
def filterPlaces (t : Index) : List Expr → List Nat → Option (List Nat)
  | [], places => some places
  | e :: es, places =>
    let size := places.length
    let kept := places.zipIdx.filterMapM fun (i, n) =>
      (e.evaluate t ⟨i, n + 1, size⟩).map fun r =>
        if keepsPosition r (n + 1) then some i else none
    match kept with
    | some kept => filterPlaces t es kept
    | none => none

end

/-- The places that a query text selects from a place; other values select nothing. -/
def select? (t : Index) (place : Nat) (query : String) : Option (List Nat) :=
  match Expr.read? query with
  | none => none
  | some e =>
    match e.evaluate t ⟨place, 1, 1⟩ with
    | some (.nodes places) => some (places.filter (· != 0))
    | _ => none

end Runbook.Xml.XPath
